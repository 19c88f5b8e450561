/-
# `Cognos.Hal.AuditRuns` — what a run of the audit log keeps

The invariant ties the memory of the log to its files (`Holds`): the entries in the file,
the ones in memory and the ones that are built but not yet in either are one chain, and
its last hash is the one the next entry will link to.  Beside it, the persisted hash is
that of the last entry in the file (`TipIs`).

    holds_buildEntry, holds_queued, holds_flushInner   what each part of a step keeps
    verify_along     every run whose flushes never set a file aside verifies
    not_valid_rotated  a flush that sets one aside does not
-/
import Mathlib
import Cognos.Hal.AuditLog
import Cognos.Lib.Run

namespace Hal

variable {Time : Type} (E : LogEnv Time)

namespace AuditLog

/-- `written` is in the file, `held` is built and on its way to `pending`. -/
structure Holds (written held : List (AuditEntry Time)) (l : AuditLog Time) : Prop where
  file : l.dir.log = fileOf E written
  linked : E.chain.Linked E.chain.genesis (written ++ l.pending ++ held)
  previous : l.previousHash = E.chain.head E.chain.genesis (written ++ l.pending ++ held)

/-- The persisted hash is that of the last of these entries. -/
def TipIs (es : List (AuditEntry Time)) (d : LogDir) : Prop :=
  d.loadChainTip E = E.chain.head E.chain.genesis es

/-! ## The persisted hash -/

/-- The hash a log carries in memory is a digest. -/
theorem exists_hash {es : List (AuditEntry Time)} (h : E.chain.Linked E.chain.genesis es) :
    ∃ s, E.chain.head E.chain.genesis es = E.hash s := by
  rcases E.chain.head_mem h with hgen | ⟨p, -, hp⟩
  · exact ⟨initialHashInput, hgen⟩
  · exact ⟨p.1 ++ p.2, hp⟩

/-- A persisted digest is loaded as it was written. -/
theorem loadChainTip_hash {d : LogDir} {s : String} (h : d.chain = some (Text.bytes (E.hash s))) :
    d.loadChainTip E = E.hash s := by
  rw [LogDir.loadChainTip, h, Option.bind_some, Text.fromUtf8?_bytes]
  exact if_neg (E.sha.trim_hex_ne _)

/-! ## The parts of a step -/

/-- The entry that `buildEntry` makes. -/
theorem holds_buildEntry {written held : List (AuditEntry Time)} {l : AuditLog Time}
    (h : Holds E written held l) (a : Appended Time) :
    Holds E written (held ++ [(buildEntry E a l).1]) (buildEntry E a l).2 := by
  have hpending : (buildEntry E a l).2.pending = l.pending := rfl
  have hhash : (buildEntry E a l).1.chainHash
      = E.hash (l.previousHash ++ (buildEntry E a l).1.body E.codecs) := rfl
  refine ⟨h.file, ?_, ?_⟩
  · rw [hpending, ← List.append_assoc]
    refine E.chain.linked_concat.mpr ⟨h.linked, ?_⟩
    rw [← h.previous]
    exact hhash
  · rw [hpending, ← List.append_assoc, HashChain.head_append]
    rfl

/-- The oldest entry that is on its way joins the pending ones. -/
theorem holds_queued {written held : List (AuditEntry Time)} {e : AuditEntry Time}
    {l : AuditLog Time} (h : Holds E written (e :: held) l) :
    Holds E written held { l with pending := l.pending ++ [e] } := by
  have hlist : written ++ (l.pending ++ [e]) ++ held = written ++ l.pending ++ (e :: held) := by
    simp
  refine ⟨h.file, ?_, ?_⟩
  · rw [hlist]
    exact h.linked
  · rw [hlist]
    exact h.previous

/-- A flush moves the pending entries to the file. -/
theorem holds_flushInner {written held : List (AuditEntry Time)} {l : AuditLog Time}
    (h : Holds E written held l) (hrot : ¬ l.Rotates) (now : Nat) :
    Holds E (written ++ l.pending) held (flushInner E now l) := by
  refine ⟨?_, ?_, ?_⟩
  · rw [log_flushInner E hrot, h.file, fileOf_append]
  · rw [pending_flushInner, List.append_nil]
    exact h.linked
  · rw [pending_flushInner, List.append_nil, previousHash_flushInner]
    exact h.previous

/-- A flush that writes persists the hash of the last entry built. -/
theorem tipIs_flushInner {written held : List (AuditEntry Time)} {l : AuditLog Time}
    (h : Holds E written held l) (hp : l.pending ≠ []) (now : Nat) :
    TipIs E (written ++ l.pending ++ held) (flushInner E now l).dir := by
  have hne : ¬ l.pending.isEmpty = true := by
    intro hempty
    exact hp (List.isEmpty_iff.mp hempty)
  obtain ⟨s, hs⟩ := exists_hash E h.linked
  have hchain : (flushInner E now l).dir.chain = some (Text.bytes (E.hash s)) := by
    rw [flushInner, if_neg hne, ← hs, ← h.previous]
  rw [TipIs, loadChainTip_hash E hchain, hs]

/-- The entries of the file. -/
theorem Holds.entriesOf {written held : List (AuditEntry Time)} {l : AuditLog Time}
    (h : Holds E written held l) (hfin : ∀ e ∈ written, e.FiniteScore) :
    entriesOf E l.dir.log = some written := by
  rw [h.file, entriesOf_fileOf E hfin]

/-- Files that agree with a chain verify. -/
theorem Holds.valid {written held : List (AuditEntry Time)} {l : AuditLog Time}
    (h : Holds E written held l) (hfin : ∀ e ∈ written, e.FiniteScore)
    (ht : TipIs E written l.dir) : (verifyDir E l.dir).valid = true := by
  refine (verifyDir_valid_iff E).mpr ⟨written, h.entriesOf E hfin, ?_, ht.symm⟩
  have hlinked := h.linked
  rw [List.append_assoc, HashChain.linked_append] at hlinked
  exact hlinked.1

end AuditLog

/-! ## Runs -/

/-- One call on a log, with the instants it reads; `reopen` drops the log and opens it again. -/
inductive LogOp (Time : Type)
  | append (a : Appended Time) (seen now : Nat)
  | flush (now : Nat)
  | query (f : AuditFilter Time) (now : Nat)
  | verify (now : Nat)
  | wipe
  | reopen (now : Nat)

namespace LogOp

open AuditLog

def step (l : AuditLog Time) : LogOp Time → AuditLog Time
  | .append a seen now => AuditLog.append E a seen now l
  | .flush now => AuditLog.flush E now l
  | .query f now => (AuditLog.query E f now l).2
  | .verify now => (AuditLog.verify E now l).2
  | .wipe => AuditLog.wipe E l
  | .reopen now => AuditLog.openAt E l.dir now

/-- An append or a flush. -/
def Writes : LogOp Time → Prop
  | .append _ _ _ | .flush _ => True
  | _ => False

/-- The score of an appended entry is a number. -/
def FiniteScore : LogOp Time → Prop
  | .append a _ _ => ∀ x ∈ a.halScore, x.isFinite = true
  | _ => True

/-- The call flushes, has something to write and finds the file beyond the limit. -/
def Rotates (l : AuditLog Time) : LogOp Time → Prop
  | .append _ seen _ => l.Due seen ∧ maxLogSizeBytes < l.dir.log.length
  | .flush _ | .query _ _ | .verify _ => l.Rotates
  | .wipe | .reopen _ => False

/-- Nothing is on its way, and the persisted hash is up to date. -/
structure Current (written : List (AuditEntry Time)) (l : AuditLog Time) : Prop where
  holds : Holds E written [] l
  tip : TipIs E written l.dir

theorem current_flush {written : List (AuditEntry Time)} {l : AuditLog Time}
    (h : Current E written l) (hrot : ¬ l.Rotates) (now : Nat) :
    Current E (written ++ l.pending) (AuditLog.flush E now l) := by
  by_cases hp : l.pending = []
  · rw [AuditLog.flush, flushInner_of_pending_nil E hp, hp, List.append_nil]
    exact h
  · have htip := tipIs_flushInner E h.holds hp now
    rw [List.append_nil] at htip
    exact ⟨holds_flushInner E h.holds hrot now, htip⟩

/-- A push adds its entry behind the others, in memory or in the file. -/
theorem current_push {written : List (AuditEntry Time)} {e : AuditEntry Time} {l : AuditLog Time}
    (h : Holds E written [e] l) (ht : TipIs E written l.dir) {seen : Nat} (now : Nat)
    (hrot : ¬ (l.Due seen ∧ maxLogSizeBytes < l.dir.log.length)) :
    ∃ written', Current E written' (AuditLog.push E e seen now l) ∧
      written' ++ (AuditLog.push E e seen now l).pending = written ++ l.pending ++ [e] := by
  have hqueued : Current E written { l with pending := l.pending ++ [e] } :=
    ⟨holds_queued E h, ht⟩
  by_cases hdue : l.Due seen
  · rw [push_of_due E hdue]
    refine ⟨_, current_flush E hqueued (fun hr => hrot ⟨hdue, hr.2⟩) now, ?_⟩
    rw [pending_flushInner, List.append_nil, List.append_assoc]
  · rw [push_of_not_due E hdue]
    exact ⟨written, hqueued, (List.append_assoc _ _ _).symm⟩

/-- The invariant of a run: up to date, and the scores are numbers. -/
structure Sound (written : List (AuditEntry Time)) (l : AuditLog Time) : Prop
    extends Current E written l where
  finite : ∀ e ∈ written ++ l.pending, e.FiniteScore

theorem sound_flush {written : List (AuditEntry Time)} {l : AuditLog Time}
    (h : Sound E written l) (hrot : ¬ l.Rotates) (now : Nat) :
    Sound E (written ++ l.pending) (AuditLog.flush E now l) := by
  refine ⟨current_flush E h.toCurrent hrot now, ?_⟩
  rw [AuditLog.flush, pending_flushInner, List.append_nil]
  exact h.finite

theorem sound_reopen {written : List (AuditEntry Time)} {l : AuditLog Time}
    (h : Sound E written l) (now : Nat) : Sound E written (AuditLog.openAt E l.dir now) := by
  have hlinked := h.holds.linked
  rw [List.append_nil, HashChain.linked_append] at hlinked
  have hall : written ++ (AuditLog.openAt E l.dir now).pending ++ [] = written := by
    rw [List.append_nil]
    exact List.append_nil written
  refine ⟨⟨⟨h.holds.file, ?_, ?_⟩, h.tip⟩, ?_⟩
  · rw [hall]
    exact hlinked.1
  · rw [hall]
    exact h.tip
  · intro e he
    have hmem : e ∈ written := by
      rw [← hall, List.append_nil]
      exact he
    exact h.finite e (List.mem_append_left _ hmem)

theorem sound_wipe (l : AuditLog Time) : Sound E [] (AuditLog.wipe E l) :=
  ⟨⟨⟨rfl, trivial, rfl⟩, rfl⟩, fun _ he => nomatch he⟩

/-- What one call keeps. -/
theorem sound_step {written : List (AuditEntry Time)} {l : AuditLog Time} {op : LogOp Time}
    (h : Sound E written l) (hfin : op.FiniteScore) (hrot : ¬ op.Rotates l) :
    ∃ written', Sound E written' (op.step E l) := by
  cases op with
  | append a seen now =>
      obtain ⟨written', hcurrent, hall⟩ :=
        current_push E (holds_buildEntry E h.holds a) h.tip now hrot
      refine ⟨written', hcurrent, ?_⟩
      intro e he
      have he' : e ∈ written ++ l.pending ++ [(buildEntry E a l).1] := hall ▸ he
      rcases List.mem_append.mp he' with he' | he'
      · exact h.finite e he'
      · rw [List.mem_singleton.mp he']
        exact hfin
  | flush now => exact ⟨_, sound_flush E h hrot now⟩
  | query f now =>
      have hstate : (AuditLog.query E f now l).2 = AuditLog.flush E now l := by
        rw [AuditLog.query]
        split <;> rfl
      rw [step, hstate]
      exact ⟨_, sound_flush E h hrot now⟩
  | verify now => exact ⟨_, sound_flush E h hrot now⟩
  | wipe => exact ⟨[], sound_wipe E l⟩
  | reopen now => exact ⟨written, sound_reopen E h now⟩

end LogOp

/-- A directory with nothing in it. -/
def LogDir.fresh : LogDir := ⟨[], fun _ => none, none, none⟩

namespace AuditLog

theorem holds_openAt_fresh (now : Nat) : Holds E [] [] (openAt E LogDir.fresh now) :=
  ⟨rfl, trivial, rfl⟩

theorem sound_openAt_fresh (now : Nat) : LogOp.Sound E [] (openAt E LogDir.fresh now) :=
  ⟨⟨holds_openAt_fresh E now, rfl⟩, fun _ he => nomatch he⟩

/-- The text that is hashed for an action without a note. -/
def openFileBody : String :=
  "\x7b\"ts\":\"2026-01-01T00:00:00Z\",\"agent\":\"file_agent\",\"action\":\"op"
    ++ "en_file\",\"outcome\":\"success\",\"chain_hash\":\"\"\x7d"

theorem line_openFile : (entry (openFile none)).line Codecs.sample = openFileBody := by
  decide

/-- The digests of a run with one note of the size of the limit. -/
def rotatedDigests (s : String) : Nat :=
  if maxLogSizeBytes < s.utf8ByteSize then
    0x5833d7dcce8d87c317b65ec2ede09a970bf945ea68f3a14c4314745289d12955
  else
    ((List.lookup s
      [("cognos-audit-v1", 0xc14b478def96da5d7baf23a9e9e14ccfff0a8de45d647b1e0c12a6e53bd38d69),
        ("5833d7dcce8d87c317b65ec2ede09a970bf945ea68f3a14c4314745289d12955" ++ openFileBody,
          0x082aa80e921ee14572e89a58ea9ff642a470ae3f5e8989a1ba556425fa293ba7),
        ("c14b478def96da5d7baf23a9e9e14ccfff0a8de45d647b1e0c12a6e53bd38d69" ++ openFileBody,
          0xe62806d377b0892a221c6c3407b2d76ed485cdd88fbd466a35070962c4ef8ad5)]).getD 0)

def rotatedEnv : LogEnv { s : String // Json.escapedLen s ≤ 40 } := LogEnv.sample rotatedDigests

/-- A run from a log that is up to date verifies at its end, as long as no call sets a file
aside. -/
theorem valid_after {l : AuditLog Time} (hl : ∃ written, LogOp.Sound E written l)
    {ops : List (LogOp Time)} {now : Nat} (hfin : ∀ op ∈ ops, op.FiniteScore)
    (hrot : Run.Along (LogOp.step E) (fun l op => ¬ op.Rotates l) l (ops ++ [.verify now])) :
    (verify E now (Run.after (LogOp.step E) l ops)).1.valid = true := by
  obtain ⟨hops, hlast, -⟩ := (Run.along_append _ _ _ _ _).mp hrot
  obtain ⟨written, hsound⟩ := Run.invariant (LogOp.step E)
    (I := fun l => ∃ written, LogOp.Sound E written l)
    (fun l op ⟨_, h⟩ hop => LogOp.sound_step E h hop.1 hop.2) hl (hops.and_forall _ hfin)
  have hflush := LogOp.sound_flush E hsound hlast now
  exact hflush.holds.valid E hsound.finite hflush.tip

/-- Every run from a fresh directory verifies at its end, as long as no call sets a file aside. -/
theorem verify_along {ops : List (LogOp Time)} {start now : Nat}
    (hfin : ∀ op ∈ ops, op.FiniteScore)
    (hrot : Run.Along (LogOp.step E) (fun l op => ¬ op.Rotates l) (openAt E LogDir.fresh start)
      (ops ++ [.verify now])) :
    (verify E now (Run.after (LogOp.step E) (openAt E LogDir.fresh start) ops)).1.valid = true :=
  valid_after E ⟨[], sound_openAt_fresh E start⟩ hfin hrot

/-- One entry, a flush and a check. -/
theorem verify_along_openFile :
    (verify rotatedEnv 0 (Run.after (LogOp.step rotatedEnv)
      (openAt rotatedEnv .fresh 0)
      [.append (openFile none) 0 0, .flush 0])).1.valid = true := by
  refine verify_along rotatedEnv ?_ ⟨?_, ?_, ?_, trivial⟩
  · intro op hop
    rcases List.mem_cons.mp hop with rfl | hop
    · exact fun _ hx => nomatch hx
    · rw [List.mem_singleton.mp hop]
      trivial
  · exact fun hr => Nat.not_lt_zero _ hr.2
  · exact fun hr => Nat.not_lt_zero _ hr.2
  · exact fun hr => hr.1 rfl

/-! ## A file set aside -/

/-- After a flush that sets the file aside, the first line links to a hash that is elsewhere. -/
theorem not_valid_rotated {written es : List (AuditEntry Time)} {e : AuditEntry Time}
    {l : AuditLog Time} (h : Holds E written [] l) (hp : l.pending = e :: es)
    (hfin : ∀ f ∈ e :: es, f.FiniteScore)
    (hsize : maxLogSizeBytes < l.dir.log.length)
    (hlink : E.chain.link (E.chain.head E.chain.genesis written) (e.body E.codecs)
      ≠ E.chain.link E.chain.genesis (e.body E.codecs)) (now : Nat) :
    (verify E now l).1.valid ≠ true := by
  intro hvalid
  obtain ⟨es', hes', hlinked', -⟩ := (verifyDir_valid_iff E).mp hvalid
  have hlog : (flush E now l).dir.log = fileOf E (e :: es) := by
    rw [flush, flushInner, hp, List.isEmpty_cons, if_neg Bool.false_ne_true, if_pos hsize]
    exact List.nil_append _
  rw [hlog, entriesOf_fileOf E hfin] at hes'
  cases hes'
  have hlinked := h.linked
  rw [hp, List.append_nil, HashChain.linked_append] at hlinked
  exact hlink (hlinked.2.1.symm.trans hlinked'.1)

def longNote (n : Nat) : String := String.ofList (List.replicate n 'a')

/-- Where the seed has this digest, the chain starts from its text. -/
theorem genesis_sample {f : String → Nat}
    (h : f "cognos-audit-v1" = 0xc14b478def96da5d7baf23a9e9e14ccfff0a8de45d647b1e0c12a6e53bd38d69) :
    (LogEnv.sample f).chain.genesis
      = "c14b478def96da5d7baf23a9e9e14ccfff0a8de45d647b1e0c12a6e53bd38d69" := by
  show (LogEnv.sample f).hash "cognos-audit-v1" = _
  rw [LogEnv.hash_sample, h]
  decide

theorem genesis_rotated : rotatedEnv.chain.genesis
    = "c14b478def96da5d7baf23a9e9e14ccfff0a8de45d647b1e0c12a6e53bd38d69" :=
  genesis_sample (by decide)

theorem hash_rotated_long {s : String} (h : maxLogSizeBytes < s.utf8ByteSize) :
    rotatedEnv.hash s = "5833d7dcce8d87c317b65ec2ede09a970bf945ea68f3a14c4314745289d12955" := by
  rw [rotatedEnv, LogEnv.hash_sample, rotatedDigests, if_pos h]
  decide

/-- One entry after two different hashes. -/
theorem hash_rotated_ne : rotatedEnv.hash
      ("5833d7dcce8d87c317b65ec2ede09a970bf945ea68f3a14c4314745289d12955" ++ openFileBody)
    ≠ rotatedEnv.hash
      ("c14b478def96da5d7baf23a9e9e14ccfff0a8de45d647b1e0c12a6e53bd38d69" ++ openFileBody) := by
  rw [rotatedEnv, LogEnv.hash_sample, LogEnv.hash_sample]
  decide +kernel

/-- The log after one entry with a note, which goes to disk at once. -/
def afterNote (note : String) : AuditLog { s : String // Json.escapedLen s ≤ 40 } :=
  append rotatedEnv (openFile (some note)) auditFlushInterval auditFlushInterval
    (openAt rotatedEnv .fresh 0)

/-- That entry. -/
def noteEntry (note : String) : AuditEntry { s : String // Json.escapedLen s ≤ 40 } :=
  (buildEntry rotatedEnv (openFile (some note)) (openAt rotatedEnv .fresh 0)).1

theorem holds_afterNote (note : String) :
    Holds rotatedEnv [noteEntry note] [] (afterNote note) := by
  have hopen := holds_openAt_fresh rotatedEnv 0
  have hbuilt := holds_buildEntry rotatedEnv hopen (openFile (some note))
  have hqueued := holds_queued rotatedEnv hbuilt
  have hsmall : ¬ Rotates
      { (buildEntry rotatedEnv (openFile (some note)) (openAt rotatedEnv .fresh 0)).2 with
        pending := [noteEntry note] } := fun hr => Nat.not_lt_zero _ hr.2
  exact holds_flushInner rotatedEnv hqueued hsmall auditFlushInterval

/-- The note is in the file. -/
theorem size_afterNote (note : String) :
    note.toList.length < (afterNote note).dir.log.length := by
  have hmem : ("note", some (Json.Value.str note)) ∈ (noteEntry note).members Codecs.sample := by
    simp [AuditEntry.members, noteEntry, buildEntry, entry, openFile]
  have hlen : note.toList.length ≤ ((noteEntry note).line Codecs.sample).utf8ByteSize :=
    Json.length_le_print hmem
  have hfile : (fileOf rotatedEnv [noteEntry note]).length
      = ((noteEntry note).line Codecs.sample).utf8ByteSize + 1 := by
    rw [fileOf, List.map_singleton, Text.unlines, List.flatMap_singleton, Text.length_bytes,
      String.utf8ByteSize_append]
    rfl
  rw [(holds_afterNote note).file, hfile]
  exact Nat.lt_succ_of_le hlen

/-- Its hash is the one for texts beyond the limit. -/
theorem head_afterNote {note : String} (h : maxLogSizeBytes ≤ note.toList.length) :
    rotatedEnv.chain.head rotatedEnv.chain.genesis [noteEntry note]
      = "5833d7dcce8d87c317b65ec2ede09a970bf945ea68f3a14c4314745289d12955" := by
  have hmem : ("note", some (Json.Value.str note)) ∈
      (noteEntry note).withoutHash.members Codecs.sample := by
    simp [AuditEntry.members, AuditEntry.withoutHash, noteEntry, buildEntry, entry, openFile]
  have hlen : note.toList.length ≤ ((noteEntry note).body Codecs.sample).utf8ByteSize :=
    Json.length_le_print hmem
  have hlink := (holds_afterNote note).linked.1
  have hgen : rotatedEnv.chain.genesis.utf8ByteSize = 64 := by
    rw [genesis_rotated]
    decide
  show (noteEntry note).chainHash = _
  refine hlink.trans (hash_rotated_long ?_)
  rw [String.utf8ByteSize_append, hgen]
  show _ < 64 + ((noteEntry note).body Codecs.sample).utf8ByteSize
  omega

/-- The log after one more entry, which stays in memory. -/
def afterBoth (note : String) : AuditLog { s : String // Json.escapedLen s ≤ 40 } :=
  append rotatedEnv (openFile none) 0 0 (afterNote note)

theorem not_valid_afterBoth {note : String} (h : maxLogSizeBytes ≤ note.toList.length) :
    (verify rotatedEnv 0 (afterBoth note)).1.valid ≠ true := by
  have hbuilt := holds_buildEntry rotatedEnv (holds_afterNote note) (openFile none)
  have hqueued := holds_queued rotatedEnv hbuilt
  have hsize : maxLogSizeBytes < (afterBoth note).dir.log.length :=
    Nat.lt_of_le_of_lt h (size_afterNote note)
  have hpending : (afterBoth note).pending
      = [(buildEntry rotatedEnv (openFile none) (afterNote note)).1] := rfl
  have hfin : ∀ f ∈ [(buildEntry rotatedEnv (openFile none) (afterNote note)).1],
      f.FiniteScore := by
    intro f hf
    rw [List.mem_singleton.mp hf]
    exact fun _ hx => nomatch hx
  refine not_valid_rotated rotatedEnv (l := afterBoth note) hqueued hpending hfin hsize ?_ 0
  have hbody : (buildEntry rotatedEnv (openFile none) (afterNote note)).1.body rotatedEnv.codecs
      = openFileBody := line_openFile
  rw [head_afterNote h, hbody, genesis_rotated]
  exact hash_rotated_ne

/-- A note of the size of the limit, then one more entry. -/
theorem not_verify_rotated : ¬ ∀ (ops : List (LogOp { s : String // Json.escapedLen s ≤ 40 }))
    (start now : Nat), (∀ op ∈ ops, op.FiniteScore) →
      (verify rotatedEnv now (Run.after (LogOp.step rotatedEnv)
        (openAt rotatedEnv .fresh start) ops)).1.valid = true := by
  intro h
  obtain ⟨note, hnote⟩ : ∃ note : String, maxLogSizeBytes ≤ note.toList.length :=
    ⟨longNote maxLogSizeBytes, by rw [longNote, String.toList_ofList, List.length_replicate]⟩
  have hfin : ∀ op ∈ [LogOp.append (openFile (some note)) auditFlushInterval auditFlushInterval,
      .append (openFile none) 0 0], op.FiniteScore := by
    intro op hop
    rcases List.mem_cons.mp hop with rfl | hop
    · exact fun _ hx => nomatch hx
    · rw [List.mem_singleton.mp hop]
      exact fun _ hx => nomatch hx
  have hvalid := h _ 0 0 hfin
  have hrun : Run.after (LogOp.step rotatedEnv) (openAt rotatedEnv .fresh 0)
      [.append (openFile (some note)) auditFlushInterval auditFlushInterval,
        .append (openFile none) 0 0] = afterBoth note := rfl
  rw [hrun] at hvalid
  exact not_valid_afterBoth hnote hvalid

end AuditLog

end Hal

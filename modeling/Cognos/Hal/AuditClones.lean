/-
# `Cognos.Hal.AuditClones` — clones of one audit log at work together

Clones share one `Inner` behind a lock.  A call of `append` takes the lock twice: once to
build its entry, which moves the head of the chain, and once to push it to the pending
ones.  Between the two the entry is the call's own (`held`, in the order of building), and
other calls may build, push and flush.

    kept_step     what a step keeps when pushes come in the order of building
    clones_along  what holds after every such run
-/
import Mathlib
import Cognos.Hal.AuditRuns

namespace Hal

open AuditLog

variable {Time : Type} (E : LogEnv Time)

/-- The shared log, the calls between their two locks, and every entry built so far. -/
structure Clones (Time : Type) where
  log : AuditLog Time
  held : List (Nat × AuditEntry Time)
  built : List (AuditEntry Time)

/-- What one clone does while it has the lock. -/
inductive CloneStep (Time : Type)
  /-- The first half of a call of `append`. -/
  | build (call : Nat) (a : Appended Time)
  /-- Its second half. -/
  | push (call : Nat) (seen now : Nat)
  | flush (now : Nat)

namespace Clones

/-- The entries on their way, oldest first. -/
def heldEntries (s : Clones Time) : List (AuditEntry Time) := s.held.map Prod.snd

/-- A log that was just opened. -/
def openAt (d : LogDir) (now : Nat) : Clones Time := ⟨AuditLog.openAt E d now, [], []⟩

end Clones

namespace CloneStep

/-- A call builds once, and pushes what it built. -/
def step (s : Clones Time) : CloneStep Time → Clones Time
  | .build call a =>
      match s.held.lookup call with
      | some _ => s
      | none =>
          let (entry, log) := buildEntry E a s.log
          { log := log, held := s.held ++ [(call, entry)], built := s.built ++ [entry] }
  | .push call seen now =>
      match s.held.lookup call with
      | none => s
      | some entry =>
          { s with
            log := AuditLog.push E entry seen now s.log
            held := s.held.eraseP (·.1 == call) }
  | .flush now => { s with log := AuditLog.flush E now s.log }

/-- A call that pushes is the oldest of those between their locks. -/
def Ordered (s : Clones Time) : CloneStep Time → Prop
  | .push call _ _ => s.held.lookup call ≠ none → s.held.head?.map Prod.fst = some call
  | _ => True

/-- The score of an appended entry is a number. -/
def FiniteScore : CloneStep Time → Prop
  | .build _ a => ∀ x ∈ a.halScore, x.isFinite = true
  | _ => True

/-- The step flushes, has something to write and finds the file beyond the limit. -/
def Rotates (s : Clones Time) : CloneStep Time → Prop
  | .build _ _ => False
  | .push _ seen _ => s.log.Due seen ∧ maxLogSizeBytes < s.log.dir.log.length
  | .flush _ => s.log.Rotates

/-- A flush that writes comes while no other call is between its locks. -/
def Quiet (s : Clones Time) : CloneStep Time → Prop
  | .build _ _ => True
  | .push call seen _ => s.log.Due seen → s.held.eraseP (·.1 == call) = []
  | .flush _ => s.log.pending ≠ [] → s.held = []

end CloneStep

namespace Clones

/-- The invariant: file, memory and calls hold one chain, which is what was built, and the
persisted hash is that of an entry in the file or after it. -/
structure Kept (written : List (AuditEntry Time)) (s : Clones Time) : Prop where
  holds : Holds E written s.heldEntries s.log
  built : written ++ s.log.pending ++ s.heldEntries = s.built
  tip : ∃ ahead, ahead <+: s.log.pending ++ s.heldEntries ∧ TipIs E (written ++ ahead) s.log.dir
  finite : ∀ e ∈ s.built, e.FiniteScore

theorem kept_openAt (now : Nat) : Kept E [] (openAt E LogDir.fresh now) :=
  ⟨holds_openAt_fresh E now, rfl, ⟨[], List.nil_prefix, rfl⟩, fun _ he => nomatch he⟩

theorem Kept.finite_written {written : List (AuditEntry Time)} {s : Clones Time}
    (h : Kept E written s) : ∀ e ∈ written, e.FiniteScore := by
  intro e he
  refine h.finite e ?_
  rw [← h.built]
  exact List.mem_append_left _ (List.mem_append_left _ he)

/-- What a flush keeps. -/
theorem kept_flush {written : List (AuditEntry Time)} {s : Clones Time} (h : Kept E written s)
    (hrot : ¬ s.log.Rotates) (now : Nat) :
    Kept E (written ++ s.log.pending) { s with log := flushInner E now s.log } := by
  by_cases hp : s.log.pending = []
  · rw [flushInner_of_pending_nil E hp, hp, List.append_nil]
    exact h
  · refine ⟨holds_flushInner E h.holds hrot now, ?_, ⟨s.heldEntries, ?_, ?_⟩, h.finite⟩
    · show written ++ s.log.pending ++ (flushInner E now s.log).pending ++ s.heldEntries = s.built
      rw [pending_flushInner, List.append_nil]
      exact h.built
    · show s.heldEntries <+: (flushInner E now s.log).pending ++ s.heldEntries
      rw [pending_flushInner, List.nil_append]
    · exact tipIs_flushInner E h.holds hp now

/-- After a flush that writes while no call is between its locks, the persisted hash is that of
the last entry in the file. -/
theorem tipIs_flush {written : List (AuditEntry Time)} {s : Clones Time} (h : Kept E written s)
    (ht : TipIs E written s.log.dir) (hquiet : s.log.pending ≠ [] → s.heldEntries = [])
    (now : Nat) : TipIs E (written ++ s.log.pending) (flushInner E now s.log).dir := by
  by_cases hp : s.log.pending = []
  · rw [flushInner_of_pending_nil E hp, hp, List.append_nil]
    exact ht
  · have htip := tipIs_flushInner E h.holds hp now
    rw [hquiet hp, List.append_nil] at htip
    exact htip

/-- The entry of the oldest call joins the pending ones. -/
theorem kept_queued {written : List (AuditEntry Time)} {s : Clones Time} {call : Nat}
    {e : AuditEntry Time} {rest : List (Nat × AuditEntry Time)} (h : Kept E written s)
    (hheld : s.held = (call, e) :: rest) :
    Kept E written { s with
      log := { s.log with pending := s.log.pending ++ [e] }
      held := rest } := by
  have hentries : s.heldEntries = e :: rest.map Prod.snd := by
    rw [heldEntries, hheld]
    rfl
  have hlist : s.log.pending ++ [e] ++ rest.map Prod.snd = s.log.pending ++ s.heldEntries := by
    rw [hentries, List.append_assoc]
    rfl
  have hholds := h.holds
  rw [hentries] at hholds
  refine ⟨holds_queued E hholds, ?_, ?_, h.finite⟩
  · show written ++ (s.log.pending ++ [e]) ++ rest.map Prod.snd = s.built
    rw [List.append_assoc, hlist, ← List.append_assoc]
    exact h.built
  · obtain ⟨ahead, hahead, htip⟩ := h.tip
    exact ⟨ahead, hlist.symm ▸ hahead, htip⟩

theorem kept_build {written : List (AuditEntry Time)} {s : Clones Time} (h : Kept E written s)
    {a : Appended Time} (ha : ∀ x ∈ a.halScore, x.isFinite = true) (call : Nat) :
    Kept E written
      { log := (buildEntry E a s.log).2
        held := s.held ++ [(call, (buildEntry E a s.log).1)]
        built := s.built ++ [(buildEntry E a s.log).1] } := by
  have hentries : (s.held ++ [(call, (buildEntry E a s.log).1)]).map Prod.snd
      = s.heldEntries ++ [(buildEntry E a s.log).1] := by
    rw [List.map_append]
    rfl
  refine ⟨?_, ?_, ?_, ?_⟩
  · show Holds E written ((s.held ++ [_]).map Prod.snd) _
    rw [hentries]
    exact holds_buildEntry E h.holds a
  · show written ++ s.log.pending ++ (s.held ++ [_]).map Prod.snd = s.built ++ [_]
    rw [hentries, ← List.append_assoc, h.built]
  · obtain ⟨ahead, hahead, htip⟩ := h.tip
    refine ⟨ahead, ?_, htip⟩
    show ahead <+: s.log.pending ++ (s.held ++ [_]).map Prod.snd
    rw [hentries, ← List.append_assoc]
    exact hahead.trans (List.prefix_append _ _)
  · intro e he
    rcases List.mem_append.mp he with he | he
    · exact h.finite e he
    · rw [List.mem_singleton.mp he]
      exact ha

/-- The oldest call and its entry. -/
theorem held_of_head {held : List (Nat × AuditEntry Time)} {call : Nat} {e : AuditEntry Time}
    (hlookup : held.lookup call = some e) (hhead : held.head?.map Prod.fst = some call) :
    ∃ rest, held = (call, e) :: rest ∧ held.eraseP (·.1 == call) = rest := by
  cases held with
  | nil => cases hlookup
  | cons p rest =>
      obtain ⟨c, f⟩ := p
      have hc : c = call := Option.some.inj hhead
      subst hc
      rw [List.lookup_cons_self] at hlookup
      cases hlookup
      exact ⟨rest, rfl, List.eraseP_cons_of_pos (beq_self_eq_true c)⟩

/-- What a step keeps; a quiet one keeps the persisted hash up to date. -/
theorem kept_step {written : List (AuditEntry Time)} {s : Clones Time} {st : CloneStep Time}
    (h : Kept E written s) (hfin : st.FiniteScore) (hord : st.Ordered s) (hrot : ¬ st.Rotates s) :
    ∃ written', Kept E written' (st.step E s) ∧
      (TipIs E written s.log.dir → st.Quiet s → TipIs E written' (st.step E s).log.dir) := by
  cases st with
  | build call a =>
      rw [CloneStep.step]
      cases hlookup : s.held.lookup call with
      | some e => exact ⟨written, h, fun ht _ => ht⟩
      | none => exact ⟨written, kept_build E h hfin call, fun ht _ => ht⟩
  | push call seen now =>
      rw [CloneStep.step]
      cases hlookup : s.held.lookup call with
      | none => exact ⟨written, h, fun ht _ => ht⟩
      | some e =>
          have hhead := hord (by rw [hlookup]; exact Option.some_ne_none e)
          obtain ⟨rest, hheld, herase⟩ := held_of_head hlookup hhead
          have hqueued := kept_queued E h hheld
          by_cases hdue : s.log.Due seen
          · have hpush := push_of_due E hdue e now
            have hsmall : ¬ Rotates { s.log with pending := s.log.pending ++ [e] } :=
              fun hr => hrot ⟨hdue, hr.2⟩
            refine ⟨written ++ (s.log.pending ++ [e]), ?_, ?_⟩
            · show Kept E _ { s with log := AuditLog.push E e seen now s.log, held := _ }
              rw [hpush, herase]
              exact kept_flush E hqueued hsmall now
            · intro ht hquiet
              show TipIs E _ (AuditLog.push E e seen now s.log).dir
              rw [hpush]
              refine tipIs_flush E hqueued ht (fun _ => ?_) now
              have hrest : rest = [] := herase ▸ hquiet hdue
              rw [hrest]
              rfl
          · have hpush := push_of_not_due E hdue e now
            refine ⟨written, ?_, ?_⟩
            · show Kept E _ { s with log := AuditLog.push E e seen now s.log, held := _ }
              rw [hpush, herase]
              exact hqueued
            · intro ht _
              show TipIs E _ (AuditLog.push E e seen now s.log).dir
              rw [hpush]
              exact ht
  | flush now =>
      refine ⟨written ++ s.log.pending, kept_flush E h hrot now, ?_⟩
      intro ht hquiet
      refine tipIs_flush E h ht (fun hp => ?_) now
      rw [heldEntries, hquiet hp]
      rfl

/-- With no call between its locks, the log verifies. -/
theorem Kept.valid {written : List (AuditEntry Time)} {s : Clones Time} (h : Kept E written s)
    (hheld : s.held = []) (hrot : ¬ s.log.Rotates) (now : Nat) :
    (verify E now s.log).1.valid = true := by
  have hentries : s.heldEntries = [] := by
    rw [heldEntries, hheld]
    rfl
  have hflush := kept_flush E h hrot now
  refine hflush.holds.valid E (hflush.finite_written E) ?_
  by_cases hp : s.log.pending = []
  · obtain ⟨ahead, hahead, htip⟩ := h.tip
    rw [hp, hentries, List.append_nil, List.prefix_nil] at hahead
    rw [hahead, List.append_nil] at htip
    exact tipIs_flush E h htip (fun hne => absurd hp hne) now
  · have htip := tipIs_flushInner E h.holds hp now
    rw [hentries, List.append_nil] at htip
    exact htip

/-- The steps the log bears: numbers for scores, pushes in the order of building, no file set
aside. -/
def Benign (s : Clones Time) (st : CloneStep Time) : Prop :=
  st.FiniteScore ∧ st.Ordered s ∧ ¬ st.Rotates s

theorem kept_along {start : Nat} {steps : List (CloneStep Time)}
    (h : Run.Along (CloneStep.step E) Benign (openAt E LogDir.fresh start) steps) :
    ∃ written, Kept E written (Run.after (CloneStep.step E) (openAt E LogDir.fresh start) steps) :=
  Run.invariant (CloneStep.step E) (I := fun s => ∃ written, Kept E written s)
    (fun _ _ ⟨_, hk⟩ hs =>
      (kept_step E hk hs.1 hs.2.1 hs.2.2).imp fun _ hk' => hk'.1)
    ⟨[], kept_openAt E start⟩ h

theorem tip_along {start : Nat} {steps : List (CloneStep Time)}
    (h : Run.Along (CloneStep.step E) (fun s st => Benign s st ∧ st.Quiet s)
      (openAt E LogDir.fresh start) steps) :
    ∃ written, Kept E written (Run.after (CloneStep.step E) (openAt E LogDir.fresh start) steps) ∧
      TipIs E written (Run.after (CloneStep.step E) (openAt E LogDir.fresh start) steps).log.dir :=
  Run.invariant (CloneStep.step E)
    (I := fun s => ∃ written, Kept E written s ∧ TipIs E written s.log.dir)
    (fun _ _ ⟨_, hk, ht⟩ ⟨hs, hquiet⟩ =>
      (kept_step E hk hs.1 hs.2.1 hs.2.2).imp fun _ hk' => ⟨hk'.1, hk'.2 ht hquiet⟩)
    ⟨[], kept_openAt E start, rfl⟩ h

/-- After every run of benign steps the file, the memory and the calls hold what was built, in
the order of building and once each.  The log verifies when no call is between its locks, and
after quiet steps also when one is. -/
theorem clones_along {start : Nat} {steps : List (CloneStep Time)}
    (h : Run.Along (CloneStep.step E) Benign (openAt E LogDir.fresh start) steps) :
    let s := Run.after (CloneStep.step E) (openAt E LogDir.fresh start) steps
    (∃ written, AuditLog.entriesOf E s.log.dir.log = some written ∧
        written ++ s.log.pending ++ s.heldEntries = s.built) ∧
      (s.held = [] → ¬ s.log.Rotates → ∀ now, (verify E now s.log).1.valid = true) ∧
      (Run.Along (CloneStep.step E) (fun s st => st.Quiet s) (openAt E LogDir.fresh start) steps →
        (s.log.pending ≠ [] → s.held = []) → ¬ s.log.Rotates →
          ∀ now, (verify E now s.log).1.valid = true) := by
  intro s
  obtain ⟨written, hk⟩ := kept_along E h
  refine ⟨⟨written, hk.holds.entriesOf E (hk.finite_written E), hk.built⟩, hk.valid E, ?_⟩
  intro hquiet hlast hrot now
  obtain ⟨written', hk', htip⟩ := tip_along E (h.and _ hquiet)
  have hflush := kept_flush E hk' hrot now
  refine hflush.holds.valid E (hflush.finite_written E) (tipIs_flush E hk' htip (fun hp => ?_) now)
  rw [heldEntries, hlast hp]
  rfl

/-! ## Two calls -/

/-- The digests of a run with two actions without a note. -/
def pairDigests (s : String) : Nat :=
  (List.lookup s
    [("cognos-audit-v1", 0xc14b478def96da5d7baf23a9e9e14ccfff0a8de45d647b1e0c12a6e53bd38d69),
      ("c14b478def96da5d7baf23a9e9e14ccfff0a8de45d647b1e0c12a6e53bd38d69" ++ openFileBody,
        0xe62806d377b0892a221c6c3407b2d76ed485cdd88fbd466a35070962c4ef8ad5),
      ("e62806d377b0892a221c6c3407b2d76ed485cdd88fbd466a35070962c4ef8ad5" ++ openFileBody,
        0xb2e027c812cee38f4dcb85be2779db09eead5220da4d65285dea0468758be950)]).getD 0

def pairEnv : LogEnv { s : String // Json.escapedLen s ≤ 40 } := LogEnv.sample pairDigests

/-- One call after the other. -/
theorem clones_along_inOrder :
    (verify pairEnv 0 (Run.after (CloneStep.step pairEnv) (openAt pairEnv LogDir.fresh 0)
      [.build 0 (openFile none), .push 0 0 0, .build 1 (openFile none), .push 1 0 0,
        .flush 0]).log).1.valid = true := by
  refine (clones_along pairEnv ?_).2.1 rfl (fun hr => hr.1 rfl) 0
  have hfin : ∀ x ∈ (openFile none).halScore, x.isFinite = true := fun _ hx => nomatch hx
  have hempty : ∀ n : Nat, ¬ n < ([] : List UInt8).length := fun n => Nat.not_lt_zero n
  exact ⟨⟨hfin, trivial, id⟩, ⟨trivial, fun _ => rfl, fun hr => hempty _ hr.2⟩,
    ⟨hfin, trivial, id⟩, ⟨trivial, fun _ => rfl, fun hr => hempty _ hr.2⟩,
    ⟨trivial, trivial, fun hr => hempty _ hr.2⟩, trivial⟩

/-- The second call overtakes the first between its locks. -/
def overtaken (a b : Appended Time) : List (CloneStep Time) :=
  [.build 0 a, .build 1 b, .push 1 0 0, .push 0 0 0, .flush 0]

/-- The first entry and the log after it. -/
def firstBuilt (a : Appended Time) : AuditEntry Time × AuditLog Time :=
  buildEntry E a (AuditLog.openAt E .fresh 0)

/-- The second one. -/
def secondBuilt (a b : Appended Time) : AuditEntry Time × AuditLog Time :=
  buildEntry E b (firstBuilt E a).2

/-- The log when all calls are done. -/
def overtakenLog (a b : Appended Time) : AuditLog Time :=
  flushInner E 0
    { (secondBuilt E a b).2 with pending := [(secondBuilt E a b).1, (firstBuilt E a).1] }

/-- Two pushes, the later entry first, and a flush. -/
theorem after_pushes {log : AuditLog Time} (hp : log.pending = []) (hlast : log.lastFlush = 0)
    (e f : AuditEntry Time) (built : List (AuditEntry Time)) :
    Run.after (CloneStep.step E) ⟨log, [(0, e), (1, f)], built⟩
        [.push 1 0 0, .push 0 0 0, .flush 0]
      = ⟨flushInner E 0 { log with pending := [f, e] }, [], built⟩ := by
  have hdue : ∀ l : AuditLog Time, l.pending.length ≤ 1 → l.lastFlush = 0 → ¬ l.Due 0 := by
    intro l hlen hlast hdue
    simp only [AuditLog.Due, hlast, flushEntryCount, auditFlushInterval] at hdue
    omega
  have hlen : log.pending.length ≤ 1 := by
    rw [hp]
    exact Nat.zero_le 1
  have hfirst := push_of_not_due E (hdue log hlen hlast) f 0
  rw [hp, List.nil_append] at hfirst
  have hsecond := push_of_not_due E
    (hdue { log with pending := [f] } (Nat.le_refl 1) hlast) e 0
  rw [Run.after_cons]
  show Run.after (CloneStep.step E) ⟨AuditLog.push E f 0 0 log, [(0, e)], built⟩ _ = _
  rw [hfirst, Run.after_cons]
  show Run.after (CloneStep.step E)
    ⟨AuditLog.push E e 0 0 { log with pending := [f] }, [], built⟩ _ = _
  rw [hsecond]
  rfl

theorem after_overtaken (a b : Appended Time) :
    Run.after (CloneStep.step E) (openAt E LogDir.fresh 0) (overtaken a b)
      = ⟨overtakenLog E a b, [], [(firstBuilt E a).1, (secondBuilt E a b).1]⟩ := by
  have hbuild : CloneStep.step E (openAt E LogDir.fresh 0) (.build 0 a)
      = ⟨(firstBuilt E a).2, [(0, (firstBuilt E a).1)], [(firstBuilt E a).1]⟩ := rfl
  have hbuild' : CloneStep.step E
      ⟨(firstBuilt E a).2, [(0, (firstBuilt E a).1)], [(firstBuilt E a).1]⟩ (.build 1 b)
      = ⟨(secondBuilt E a b).2, [(0, (firstBuilt E a).1), (1, (secondBuilt E a b).1)],
          [(firstBuilt E a).1, (secondBuilt E a b).1]⟩ := rfl
  have hp : (secondBuilt E a b).2.pending = [] := rfl
  have hlast : (secondBuilt E a b).2.lastFlush = 0 := rfl
  rw [overtaken, Run.after_cons, hbuild, Run.after_cons, hbuild', after_pushes E hp hlast]
  rfl

theorem entriesOf_overtaken {a b : Appended Time} (ha : ∀ x ∈ a.halScore, x.isFinite = true)
    (hb : ∀ x ∈ b.halScore, x.isFinite = true) :
    AuditLog.entriesOf E (overtakenLog E a b).dir.log
      = some [(secondBuilt E a b).1, (firstBuilt E a).1] := by
  have hlog : (overtakenLog E a b).dir.log
      = fileOf E [(secondBuilt E a b).1, (firstBuilt E a).1] := List.nil_append _
  rw [hlog]
  refine entriesOf_fileOf E fun e he => ?_
  rcases List.mem_cons.mp he with rfl | he
  · exact hb
  · rw [List.mem_singleton.mp he]
    exact ha

/-- The second entry comes first, and does not link to the start. -/
theorem not_valid_overtaken {a b : Appended Time} (ha : ∀ x ∈ a.halScore, x.isFinite = true)
    (hb : ∀ x ∈ b.halScore, x.isFinite = true)
    (hlink : (secondBuilt E a b).1.chainHash
      ≠ E.chain.link E.chain.genesis ((secondBuilt E a b).1.body E.codecs)) :
    (verify E 0 (overtakenLog E a b)).1.valid ≠ true := by
  have hpending : (overtakenLog E a b).pending = [] := rfl
  rw [verify_of_pending_nil E hpending]
  intro hvalid
  obtain ⟨es, hes, hlinked, -⟩ := (verifyDir_valid_iff E).mp hvalid
  rw [entriesOf_overtaken E ha hb] at hes
  obtain rfl := Option.some.inj hes
  obtain ⟨hfirst, -⟩ := hlinked
  exact hlink hfirst

theorem hash_first : (firstBuilt pairEnv (openFile none)).1.chainHash
    = "e62806d377b0892a221c6c3407b2d76ed485cdd88fbd466a35070962c4ef8ad5" := by
  have hgen : pairEnv.chain.genesis
      = "c14b478def96da5d7baf23a9e9e14ccfff0a8de45d647b1e0c12a6e53bd38d69" :=
    genesis_sample (by decide)
  show pairEnv.hash (pairEnv.chain.genesis ++ (entry (openFile none)).line Codecs.sample) = _
  rw [hgen, line_openFile, pairEnv, LogEnv.hash_sample]
  decide +kernel

theorem hash_second : (secondBuilt pairEnv (openFile none) (openFile none)).1.chainHash
    = "b2e027c812cee38f4dcb85be2779db09eead5220da4d65285dea0468758be950" := by
  show pairEnv.hash ((firstBuilt pairEnv (openFile none)).1.chainHash
    ++ (entry (openFile none)).line Codecs.sample) = _
  rw [hash_first, line_openFile, pairEnv, LogEnv.hash_sample]
  decide +kernel

/-- All calls are done and all entries written, the second before the first: the order is not
that of building, and the log does not verify. -/
theorem not_clones_overtaken :
    ¬ ∀ steps : List (CloneStep { s : String // Json.escapedLen s ≤ 40 }),
    let s := Run.after (CloneStep.step pairEnv) (openAt pairEnv LogDir.fresh 0) steps
    s.held = [] → s.log.pending = [] →
      AuditLog.entriesOf pairEnv s.log.dir.log = some s.built ∨
        (verify pairEnv 0 s.log).1.valid = true := by
  intro h
  have hfin : ∀ x ∈ (openFile none).halScore, x.isFinite = true := fun _ hx => nomatch hx
  have hne : (secondBuilt pairEnv (openFile none) (openFile none)).1.chainHash
      ≠ (firstBuilt pairEnv (openFile none)).1.chainHash := by
    rw [hash_first, hash_second]
    decide
  have hrun := h (overtaken (openFile none) (openFile none))
  rw [after_overtaken] at hrun
  rcases hrun rfl rfl with horder | hvalid
  · rw [entriesOf_overtaken pairEnv hfin hfin] at horder
    have hlist : [(secondBuilt pairEnv (openFile none) (openFile none)).1,
        (firstBuilt pairEnv (openFile none)).1]
        = [(firstBuilt pairEnv (openFile none)).1,
          (secondBuilt pairEnv (openFile none) (openFile none)).1] := Option.some.inj horder
    exact hne (congrArg AuditEntry.chainHash (List.cons.inj hlist).1)
  · -- both entries have one body, so the second one's link to the start is the first one's hash
    exact not_valid_overtaken pairEnv hfin hfin hne hvalid

end Clones

end Hal

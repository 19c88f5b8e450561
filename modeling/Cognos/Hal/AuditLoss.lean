/-
# `Cognos.Hal.AuditLoss` — entries between memory and disk

A flush empties the list of pending entries, writes their lines and persists their last
hash, and drops what each of these calls says of itself.  A run of appends and flushes
loses nothing as long as no write fails and no rename of a rotation puts one file of
entries over another: every entry is pending or on disk, and the persisted hash is that of
the last entry on disk.

    shifted_turn, mem_diskLines_setAside   a rotation that replaces nothing keeps the lines
    append_unlines     what a flush writes comes after everything else
    sound_step         what a call keeps
    noLoss_of_careful  every run of careful calls
    not_noLoss         one write that fails
-/
import Mathlib
import Cognos.Hal.AuditReread
import Cognos.Hal.AuditDisk

namespace Hal

variable {Time : Type} (E : LogEnv Time)

/-! ## What is on disk -/

/-- The log has number 0, before the files set aside. -/
def LogName.number : Nat → LogName
  | 0 => .log
  | i + 1 => .rotated (i + 1)

/-- The names of the files of entries, the oldest first. -/
def entryFiles : List LogName := [5, 4, 3, 2, 1, 0].map LogName.number

/-- The lines of a file that is there and can be read. -/
def linesOf (file : Option (List UInt8)) : List String :=
  ((file.bind Text.fromUtf8?).map Text.lines).getD []

def diskLines (v : Volume LogName) : List String := entryFiles.flatMap fun n => linesOf (v.files n)

/-- The entries on disk, as `query` reads them from one file. -/
def diskEntries (v : Volume LogName) : List (AuditEntry Time) :=
  (diskLines v).filterMap (AuditEntry.readLine E.codecs)

/-- The hash of the last entry on disk. -/
def lastHash (v : Volume LogName) : String :=
  (diskEntries E v).getLast?.elim E.chain.genesis AuditEntry.chainHash

/-- Each of these entries is pending or on disk, and the persisted hash is the last one's. -/
structure Inner.NoLoss (appended : List (AuditEntry Time)) (d : Inner Time) : Prop where
  kept : ∀ e ∈ appended, e ∈ d.pending ∨ e.line E.codecs ∈ diskLines d.volume
  tip : d.dir.loadChainTip E = lastHash E d.volume

/-! ## When nothing is lost -/

/-- The file with the number is moved up: there is none that may go past the last. -/
def FlushOutcome.made (o : FlushOutcome) : Nat → Bool
  | 0 => o.setAside
  | i + 1 => decide (i + 1 < maxRotatedFiles) && o.moved (i + 1)

/-- No rename of a rotation puts a file over another. -/
def FlushOutcome.Clear (o : FlushOutcome) (v : Volume LogName) : Prop :=
  ∀ i < 5, o.made i = true → v.files (.number i) ≠ none →
    v.files (.number (i + 1)) = none ∨ o.made (i + 1) = true

/-- The flush finds the log beyond the limit. -/
def Inner.Rotates (o : FlushOutcome) (d : Inner Time) : Prop :=
  (Inner.size? o d.volume).any (maxLogSizeBytes < ·) = true

/-- No write of a flush fails, and no file of entries is replaced. -/
structure FlushOutcome.Careful (o : FlushOutcome) (d : Inner Time) : Prop where
  writes : ∀ r ∈ o.writes, r.GoesOn
  tip : ∃ results, o.tip = some results ∧ ∀ r ∈ results, r.GoesOn
  clear : d.Rotates o → o.Clear d.volume

/-- If the call flushes, and has something to write, the flush is careful. -/
def DiskOp.Careful (d : Inner Time) : DiskOp Time → Prop
  | .append _ seen _ o => d.toLog.Due seen → o.Careful d
  | .flush _ o => d.pending ≠ [] → o.Careful d

/-- A log, with the entries that were appended to it since it was opened. -/
structure Session (Time : Type) where
  inner : Inner Time
  appended : List (AuditEntry Time)

namespace Session

def openAt (v : Volume LogName) (chain : Option (List UInt8)) (now : Nat) : Session Time :=
  ⟨Inner.openAt E v chain now, []⟩

/-- The entries that a call builds. -/
def built (s : Session Time) : DiskOp Time → List (AuditEntry Time)
  | .append a _ _ _ => [(s.inner.buildEntry E a).1]
  | .flush _ _ => []

def step (s : Session Time) (op : DiskOp Time) : Session Time where
  inner := op.step E s.inner
  appended := s.appended ++ s.built E op

end Session

/-! ## Lines under other names -/

theorem number_injective : Function.Injective LogName.number := by
  intro i j h
  cases i with
  | zero =>
      cases j with
      | zero => rfl
      | succ j => cases h
  | succ i =>
      cases j with
      | zero => cases h
      | succ j => exact LogName.rotated.inj h

theorem number_ne {i j : Nat} (h : i ≠ j) : LogName.number i ≠ .number j :=
  number_injective.ne h

theorem mem_entryFiles {i : Nat} (h : i ≤ 5) : LogName.number i ∈ entryFiles := by
  refine List.mem_map_of_mem ?_
  simp only [List.mem_cons, List.not_mem_nil, or_false]
  omega

theorem linesOf_unlines {ls : List String} (h : ∀ l ∈ ls, Text.IsLine l) :
    linesOf (some (Text.unlines ls)) = ls := by
  rw [linesOf, Option.bind_some, Text.lines_unlines h, Option.getD_some]

theorem mem_diskLines {v : Volume LogName} {l : String} :
    l ∈ diskLines v ↔ ∃ n ∈ entryFiles, l ∈ linesOf (v.files n) :=
  List.mem_flatMap

theorem diskLines_congr {v w : Volume LogName}
    (h : ∀ n ∈ entryFiles, linesOf (v.files n) = linesOf (w.files n)) :
    diskLines v = diskLines w :=
  List.flatMap_congr h

/-- A file that moves to a free name keeps its lines on disk. -/
theorem mem_diskLines_rename {v : Volume LogName} {i : Nat} (hi : i < 5)
    (hfree : v.files (.number (i + 1)) = none) {l : String} (hl : l ∈ diskLines v) :
    l ∈ diskLines (v.rename (.number i) (.number (i + 1))) := by
  obtain ⟨n, hn, hmem⟩ := mem_diskLines.mp hl
  by_cases hsource : n = .number i
  · refine mem_diskLines.mpr ⟨.number (i + 1), mem_entryFiles hi, ?_⟩
    rw [Volume.files_rename_target, hfree, ← hsource]
    cases hfile : v.files n with
    | none =>
        rw [hfile] at hmem
        exact hmem
    | some bs =>
        rw [hfile] at hmem
        exact hmem
  · by_cases htarget : n = .number (i + 1)
    · rw [htarget, hfree] at hmem
      cases hmem
    · refine mem_diskLines.mpr ⟨n, hn, ?_⟩
      rw [Volume.files_rename_of_ne hsource htarget]
      exact hmem

/-! ## A rotation -/

/-- A file moves up by one number, if it is to be moved. -/
def turn (o : FlushOutcome) (v : Volume LogName) (i : Nat) : Volume LogName :=
  if o.made i = true then v.rename (.number i) (.number (i + 1)) else v

theorem setAside_eq (o : FlushOutcome) (v : Volume LogName) :
    Inner.setAside o v = [4, 3, 2, 1, 0].foldl (turn o) v := rfl

/-- The files from number `k` on are moved: below nothing happened, `k` itself is free unless it
had to stay, and the lines are there. -/
structure Shifted (o : FlushOutcome) (v : Volume LogName) (k : Nat) (w : Volume LogName) :
    Prop where
  below : ∀ i < k, w.files (.number i) = v.files (.number i)
  front : w.files (.number k) = none ∨
    (o.made k ≠ true ∧ w.files (.number k) = v.files (.number k))
  lines : ∀ l ∈ diskLines v, l ∈ diskLines w

theorem shifted_turn {o : FlushOutcome} {v w : Volume LogName} (hclear : o.Clear v) {k : Nat}
    (hk : k < 5) (h : Shifted o v (k + 1) w) : Shifted o v k (turn o w k) := by
  have hbelow : w.files (.number k) = v.files (.number k) := h.below k (Nat.lt_succ_self k)
  by_cases hmade : o.made k = true
  · rw [turn, if_pos hmade]
    cases hfile : w.files (.number k) with
    | none =>
        rw [Volume.rename_of_none hfile]
        exact ⟨fun i hi => h.below i (Nat.lt_succ_of_lt hi), Or.inl hfile, h.lines⟩
    | some bs =>
        have hthere : v.files (.number k) ≠ none := by
          rw [← hbelow, hfile]
          exact Option.some_ne_none bs
        -- the next number is free by now: it was, or its file has just left
        have hfree : w.files (.number (k + 1)) = none := by
          rcases h.front with hfree | ⟨hstay, hsame⟩
          · exact hfree
          · rcases hclear k hk hmade hthere with hnone | hnext
            · rw [hsame, hnone]
            · exact absurd hnext hstay
        refine ⟨fun i hi => ?_, Or.inl ?_, fun l hl => ?_⟩
        · rw [Volume.files_rename_of_ne (number_ne (by omega)) (number_ne (by omega))]
          exact h.below i (Nat.lt_succ_of_lt hi)
        · exact Volume.files_rename_source (number_ne (Nat.succ_ne_self k).symm)
        · exact mem_diskLines_rename hk hfree (h.lines l hl)
  · rw [turn, if_neg hmade]
    exact ⟨fun i hi => h.below i (Nat.lt_succ_of_lt hi), Or.inr ⟨hmade, hbelow⟩, h.lines⟩

theorem mem_diskLines_setAside {o : FlushOutcome} {v : Volume LogName} (hclear : o.Clear v)
    {l : String} (hl : l ∈ diskLines v) : l ∈ diskLines (Inner.setAside o v) := by
  have hstart : Shifted o v 5 v := by
    refine ⟨fun _ _ => rfl, Or.inr ⟨?_, rfl⟩, fun _ hl => hl⟩
    exact Bool.false_ne_true
  have h4 := shifted_turn hclear (by omega) hstart
  have h3 := shifted_turn hclear (by omega) h4
  have h2 := shifted_turn hclear (by omega) h3
  have h1 := shifted_turn hclear (by omega) h2
  have h0 := shifted_turn hclear (by omega) h1
  rw [setAside_eq]
  exact h0.lines l hl

/-- Opening the log for appending adds no line. -/
theorem diskLines_openAppend (v : Volume LogName) :
    diskLines (v.openAppend .log) = diskLines v := by
  refine diskLines_congr fun n _ => ?_
  by_cases hn : n = .log
  · rw [hn, (Volume.holds_openAppend LogName.log v).file]
    cases v.files .log with
    | none => exact linesOf_unlines (List.forall_mem_nil Text.IsLine)
    | some bs => rfl
  · rw [Volume.files_openAppend_of_ne hn]

/-! ## The file that is written to -/

/-- It ends where a line ends, and none is newer: it is the log, or the log that was set aside
while no new one could be opened. -/
structure Target (v : Volume LogName) (n : LogName) (ls : List String) : Prop where
  holds : v.Holds n (Text.unlines ls)
  isLine : ∀ l ∈ ls, Text.IsLine l
  newest : n = .log ∨ (n = .number 1 ∧ v.files .log = none)

theorem holds_turn {o : FlushOutcome} {v : Volume LogName} {bs : List UInt8} {i : Nat}
    (hi : i ≠ 0) (h : v.Holds .log bs) : (turn o v i).Holds .log bs := by
  have hne : ∀ {j : Nat}, j ≠ 0 → LogName.log ≠ .number j := fun hj => number_ne hj.symm
  rw [turn]
  split
  · exact h.rename_of_ne (hne hi) (hne (Nat.succ_ne_zero i))
  · exact h

/-- The log is set aside, or it is where it was. -/
theorem target_setAside {o : FlushOutcome} {v : Volume LogName} {ls : List String}
    (h : Target v .log ls) : ∃ n, Target (Inner.setAside o v) n ls := by
  have hlog : ([4, 3, 2, 1].foldl (turn o) v).Holds .log (Text.unlines ls) :=
    holds_turn (by decide) (holds_turn (by decide) (holds_turn (by decide)
      (holds_turn (by decide) h.holds)))
  have heq : Inner.setAside o v = turn o ([4, 3, 2, 1].foldl (turn o) v) 0 := rfl
  rw [heq, turn]
  split
  · exact ⟨.number 1, hlog.rename _, h.isLine,
      Or.inr ⟨rfl, Volume.files_rename_source (number_ne (by decide))⟩⟩
  · exact ⟨.log, hlog, h.isLine, Or.inl rfl⟩

theorem target_openAppend {v : Volume LogName} {n : LogName} {ls : List String}
    (h : Target v n ls) : ∃ ls', Target (v.openAppend .log) .log ls' := by
  have hopen := Volume.holds_openAppend LogName.log v
  rcases h.newest with rfl | ⟨-, hnone⟩
  · rw [h.holds.file] at hopen
    exact ⟨ls, hopen, h.isLine, Or.inl rfl⟩
  · rw [hnone] at hopen
    exact ⟨[], hopen, fun _ hl => absurd hl List.not_mem_nil, Or.inl rfl⟩

/-- Lines that are appended come after everything else, and nothing else changes. -/
theorem append_unlines {v : Volume LogName} {n : LogName} {ls new : List String}
    (h : Target v n ls) (hnew : ∀ l ∈ new, Text.IsLine l) :
    Target (v.append (Text.unlines new)) n (ls ++ new) ∧
      (∀ l ∈ diskLines v, l ∈ diskLines (v.append (Text.unlines new))) ∧
      ∃ before, diskLines (v.append (Text.unlines new)) = before ++ new := by
  have hall : ∀ l ∈ ls ++ new, Text.IsLine l := by
    intro l hl
    rcases List.mem_append.mp hl with hl | hl
    · exact h.isLine l hl
    · exact hnew l hl
  have hholds := h.holds.append (Text.unlines new)
  rw [← Text.unlines_append] at hholds
  have hlines : linesOf ((v.append (Text.unlines new)).files n) = ls ++ new := by
    rw [hholds.file, linesOf_unlines hall]
  have hother : ∀ m, m ≠ n → (v.append (Text.unlines new)).files m = v.files m :=
    fun m hm => h.holds.append_of_ne hm _
  refine ⟨⟨hholds, hall, ?_⟩, ?_, ?_⟩
  · rcases h.newest with hn | ⟨hn, hnone⟩
    · exact Or.inl hn
    · refine Or.inr ⟨hn, ?_⟩
      rw [hother .log (by rw [hn]; decide), hnone]
  · intro l hl
    obtain ⟨m, hm, hmem⟩ := mem_diskLines.mp hl
    refine mem_diskLines.mpr ⟨m, hm, ?_⟩
    by_cases hmn : m = n
    · rw [hmn, h.holds.file, linesOf_unlines h.isLine] at hmem
      rw [hmn, hlines]
      exact List.mem_append_left _ hmem
    · rw [hother m hmn]
      exact hmem
  · have hfiles : ∀ w : Volume LogName, diskLines w =
        (([5, 4, 3, 2].map LogName.number).flatMap fun m => linesOf (w.files m)) ++
          (linesOf (w.files (.number 1)) ++ linesOf (w.files .log)) := by
      intro w
      show List.flatMap _ (([5, 4, 3, 2].map LogName.number) ++ [.number 1, .log]) = _
      rw [List.flatMap_append, List.flatMap_cons, List.flatMap_cons, List.flatMap_nil,
        List.append_nil]
    rw [hfiles]
    rcases h.newest with rfl | ⟨rfl, hnone⟩
    · rw [hlines, ← List.append_assoc, ← List.append_assoc]
      exact ⟨_, rfl⟩
    · have hnil : linesOf none = [] := rfl
      rw [hlines, hother .log (by decide), hnone, hnil, List.append_nil, ← List.append_assoc]
      exact ⟨_, rfl⟩

/-! ## The parts of a flush -/

namespace Inner

/-- The writer holds nothing back and writes to the newest file. -/
structure Ready (d : Inner Time) : Prop where
  held : d.held = []
  target : ∃ n ls, Target d.volume n ls

/-- A rotation keeps the lines and the writer's file. -/
theorem ready_rotateIfNeeded {o : FlushOutcome} {d : Inner Time} (hd : d.Ready)
    (hclear : d.Rotates o → o.Clear d.volume) :
    (rotateIfNeeded o d).Ready ∧ (rotateIfNeeded o d).pending = d.pending ∧
      (rotateIfNeeded o d).previousHash = d.previousHash ∧
      ∀ l ∈ diskLines d.volume, l ∈ diskLines (rotateIfNeeded o d).volume := by
  obtain ⟨hheld, n, ls, htarget⟩ := hd
  by_cases hrot : d.Rotates o
  · have hstep : rotateIfNeeded o d = rotateStatic o d := if_pos hrot
    rw [hstep]
    -- a log that is beyond the limit is there, so it is what the writer writes to
    have hn : n = .log := by
      rcases htarget.newest with hn | ⟨-, hnone⟩
      · exact hn
      · rw [Rotates, size?, hnone, Option.map_none, ite_self] at hrot
        cases hrot
    subst hn
    obtain ⟨m, haside⟩ := target_setAside (o := o) htarget
    have hlines : ∀ l ∈ diskLines d.volume, l ∈ diskLines (setAside o d.volume) :=
      fun l hl => mem_diskLines_setAside (hclear hrot) hl
    rw [rotateStatic]
    by_cases hopen : o.reopened = true
    · rw [if_pos hopen, hheld, replaceWriter_nil]
      obtain ⟨ls', htarget'⟩ := target_openAppend haside
      refine ⟨⟨rfl, .log, ls', htarget'⟩, rfl, rfl, fun l hl => ?_⟩
      show l ∈ diskLines ((setAside o d.volume).openAppend .log)
      rw [diskLines_openAppend]
      exact hlines l hl
    · rw [if_neg hopen]
      exact ⟨⟨hheld, m, ls, haside⟩, rfl, rfl, hlines⟩
  · have hstep : rotateIfNeeded o d = d := if_neg hrot
    rw [hstep]
    exact ⟨⟨hheld, n, ls, htarget⟩, rfl, rfl, fun _ hl => hl⟩

/-- A line is read as an entry with its hash, whatever its score. -/
theorem exists_readLine_line (e : AuditEntry Time) :
    ∃ e', AuditEntry.readLine E.codecs (e.line E.codecs) = some e' ∧
      e'.chainHash = e.chainHash := by
  by_cases hfin : e.FiniteScore
  · exact ⟨e, AuditEntry.readLine_line E.codecs hfin, rfl⟩
  · obtain ⟨x, hx, hinf⟩ := AuditEntry.exists_infinite hfin
    exact ⟨_, AuditEntry.readLine_infinite E.codecs hx hinf, rfl⟩

/-- The last entry on disk is the last one that was written. -/
theorem lastHash_of_lines {v : Volume LogName} {before : List String}
    {es : List (AuditEntry Time)} {e : AuditEntry Time}
    (h : diskLines v = before ++ (es ++ [e]).map (AuditEntry.line E.codecs)) :
    lastHash E v = e.chainHash := by
  obtain ⟨e', hread, hhash⟩ := exists_readLine_line E e
  rw [lastHash, diskEntries, h, List.map_append, ← List.append_assoc, List.filterMap_append]
  have hlast : ([e].map (AuditEntry.line E.codecs)).filterMap (AuditEntry.readLine E.codecs)
      = [e'] := by
    rw [List.map_singleton, List.filterMap_cons, hread]
    rfl
  rw [hlast, List.getLast?_concat]
  exact hhash

/-- Ready to write, and with the hash of the last pending entry, a digest. -/
structure Linked (d : Inner Time) : Prop extends d.Ready where
  last : ∀ e ∈ d.pending.getLast?, d.previousHash = e.chainHash
  digest : d.pending ≠ [] → ∃ s, d.previousHash = E.hash s

/-- A careful flush of an entry or more brings all of them to disk, behind the others. -/
theorem noLoss_flushInner {appended : List (AuditEntry Time)} {d : Inner Time}
    (hd : d.Linked E) (hkept : ∀ e ∈ appended, e ∈ d.pending ∨ e.line E.codecs ∈ diskLines d.volume)
    (hp : d.pending ≠ []) {o : FlushOutcome} (ho : o.Careful d) (now : Nat) :
    (flushInner E now o d).Linked E ∧ (flushInner E now o d).NoLoss E appended := by
  obtain ⟨hready, hpending, hhash, hrotated⟩ := ready_rotateIfNeeded hd.toReady ho.clear
  obtain ⟨hheld, n, ls, htarget⟩ := hready
  obtain ⟨hbuf, hwritten⟩ := writer_goesOn E hheld ho.writes
  have hlines : ∀ l ∈ d.pending.map (AuditEntry.line E.codecs), Text.IsLine l := by
    rw [List.forall_mem_map]
    intro e _
    exact Json.isLine_print _
  obtain ⟨htarget', hbefore, before, hall⟩ := append_unlines htarget hlines
  have hvolume : (flushInner E now o d).volume = (rotateIfNeeded o d).volume.append
      (Text.unlines (d.pending.map (AuditEntry.line E.codecs))) := by
    rw [flushInner_of_pending E hp, hwritten, hpending]
    rfl
  have hrest : (flushInner E now o d).held = [] ∧ (flushInner E now o d).pending = [] := by
    rw [flushInner_of_pending E hp]
    exact ⟨hbuf, rfl⟩
  have hdisk : diskLines (flushInner E now o d).volume =
      before ++ d.pending.map (AuditEntry.line E.codecs) := by
    rw [hvolume, hall]
  refine ⟨⟨⟨hrest.1, n, ls ++ d.pending.map (AuditEntry.line E.codecs), ?_⟩, ?_, ?_⟩,
    fun e he => Or.inr ?_, ?_⟩
  · rw [hvolume]
    exact htarget'
  · intro e he
    rw [hrest.2] at he
    cases he
  · intro hne
    exact absurd hrest.2 hne
  · rw [hdisk]
    rcases hkept e he with hmem | hmem
    · exact List.mem_append_right _ (List.mem_map_of_mem hmem)
    · rw [← hall]
      exact hbefore _ (hrotated _ hmem)
  · obtain ⟨es, e, hes⟩ := (List.eq_nil_or_concat d.pending).resolve_left hp
    obtain ⟨s, hs⟩ := hd.digest hp
    rw [List.concat_eq_append] at hes
    have hprevious : d.previousHash = e.chainHash :=
      hd.last e (by rw [hes, List.getLast?_concat]; rfl)
    have hchain : (flushInner E now o d).dir.chain = some (Text.bytes (E.hash s)) := by
      show (flushInner E now o d).chain = _
      rw [flushInner_of_pending E hp, hhash, ← hs]
      exact persist_goesOn ho.tip _ _
    rw [hes] at hdisk
    rw [AuditLog.loadChainTip_hash E hchain, lastHash_of_lines E hdisk, ← hs, hprevious]

end Inner

/-! ## Runs -/

/-- The files a log is opened on: the log ends where a line ends, and the persisted hash is that
of the last entry. -/
structure Intact (v : Volume LogName) (chain : Option (List UInt8)) : Prop where
  lines : ∃ ls, (∀ l ∈ ls, Text.IsLine l) ∧ (v.files .log).getD [] = Text.unlines ls
  tip : (LogDir.ofVolume v chain).loadChainTip E = lastHash E v

namespace Session

/-- The invariant of a run. -/
structure Sound (s : Session Time) : Prop where
  linked : s.inner.Linked E
  noLoss : s.inner.NoLoss E s.appended

theorem sound_openAt {v : Volume LogName} {chain : Option (List UInt8)} (hv : Intact E v chain)
    (now : Nat) : (openAt E v chain now).Sound E := by
  obtain ⟨ls, hls, hlog⟩ := hv.lines
  have hopen := Volume.holds_openAppend LogName.log v
  rw [hlog] at hopen
  refine ⟨⟨⟨rfl, .log, ls, hopen, hls, Or.inl rfl⟩, ?_, ?_⟩, ?_, ?_⟩
  · intro e he
    cases he
  · intro hne
    exact absurd rfl hne
  · intro e he
    cases he
  · have hlast : lastHash E (v.openAppend .log) = lastHash E v := by
      rw [lastHash, diskEntries, diskLines_openAppend]
      rfl
    exact hv.tip.trans hlast.symm

/-- An entry that is built joins the pending ones. -/
theorem sound_queue {s : Session Time} (h : s.Sound E) (a : Appended Time) :
    (Session.mk ((s.inner.buildEntry E a).2.queue (s.inner.buildEntry E a).1)
      (s.appended ++ [(s.inner.buildEntry E a).1])).Sound E := by
  refine ⟨⟨⟨h.linked.held, h.linked.target⟩, ?_, ?_⟩, ?_, h.noLoss.tip⟩
  · intro e he
    have hlast : (s.inner.pending ++ [(s.inner.buildEntry E a).1]).getLast? = some e := he
    rw [List.getLast?_concat] at hlast
    cases hlast
    rfl
  · intro _
    exact ⟨_, rfl⟩
  · intro e he
    rcases List.mem_append.mp he with he | he
    · rcases h.noLoss.kept e he with hp | hd
      · exact Or.inl (List.mem_append_left _ hp)
      · exact Or.inr hd
    · exact Or.inl (List.mem_append_right _ he)

/-- What a careful call keeps. -/
theorem sound_step {s : Session Time} {op : DiskOp Time} (h : s.Sound E)
    (hop : op.Careful s.inner) : (s.step E op).Sound E := by
  cases op with
  | append a seen now o =>
      have hqueue := sound_queue E h a
      rw [step]
      by_cases hdue : s.inner.toLog.Due seen
      · have ho : o.Careful s.inner := hop hdue
        have hinner : DiskOp.step E s.inner (.append a seen now o) =
            Inner.flushInner E now o
              ((s.inner.buildEntry E a).2.queue (s.inner.buildEntry E a).1) :=
          Inner.push_of_due E (d := (s.inner.buildEntry E a).2) hdue _ now o
        have hpending : ((s.inner.buildEntry E a).2.queue (s.inner.buildEntry E a).1).pending
            ≠ [] := List.append_ne_nil_of_right_ne_nil _ (List.cons_ne_nil _ _)
        rw [hinner]
        obtain ⟨hlinked, hnoLoss⟩ := Inner.noLoss_flushInner E hqueue.linked hqueue.noLoss.kept
          hpending ⟨ho.writes, ho.tip, ho.clear⟩ now
        exact ⟨hlinked, hnoLoss⟩
      · have hinner : DiskOp.step E s.inner (.append a seen now o) =
            (s.inner.buildEntry E a).2.queue (s.inner.buildEntry E a).1 :=
          Inner.push_of_not_due E (d := (s.inner.buildEntry E a).2) hdue _ now o
        rw [hinner]
        exact hqueue
  | flush now o =>
      have happended : s.appended ++ s.built E (.flush now o) = s.appended := List.append_nil _
      rw [step, happended]
      show (Session.mk (Inner.flushInner E now o s.inner) s.appended).Sound E
      by_cases hp : s.inner.pending = []
      · rw [Inner.flushInner_of_pending_nil E hp]
        exact h
      · obtain ⟨hlinked, hnoLoss⟩ :=
          Inner.noLoss_flushInner E h.linked h.noLoss.kept hp (hop hp) now
        exact ⟨hlinked, hnoLoss⟩

/-- In a run whose flushes are careful, every entry that was appended is pending or on disk all
along, and the persisted hash is that of the last one on disk. -/
theorem noLoss_of_careful {v : Volume LogName} {chain : Option (List UInt8)}
    (hv : Intact E v chain) {start : Nat} {ops : List (DiskOp Time)}
    (h : Run.Along (step E) (fun s op => op.Careful s.inner) (openAt E v chain start) ops) :
    Run.Throughout (step E) (fun s => s.inner.NoLoss E s.appended) (openAt E v chain start)
      ops := by
  rintro past ⟨rest, rfl⟩
  obtain ⟨hpast, -⟩ := (Run.along_append _ _ _ _ _).mp h
  exact (Run.invariant (step E) (I := fun s => s.Sound E) (fun _ _ hs hop => sound_step E hs hop)
    (sound_openAt E hv start) hpast).noLoss

end Session

/-! ## One write that fails -/

/-- A directory with nothing in it. -/
def bareVolume : Volume LogName := ⟨fun _ => none, none⟩

theorem intact_bare : Intact E bareVolume none := by
  refine ⟨⟨[], fun _ hl => absurd hl List.not_mem_nil, rfl⟩, ?_⟩
  have hlines : diskLines bareVolume = [] := rfl
  rw [lastHash, diskEntries, hlines]
  rfl

/-- Every call succeeds but the writes of lines, which come to this. -/
def FlushOutcome.ofWrites (writes : List WriteResult) : FlushOutcome where
  metadata := true
  moved _ := true
  setAside := true
  reopened := true
  dropped := []
  writes := writes
  tip := some []

/-- No write of a line takes anything. -/
def FlushOutcome.full : FlushOutcome := .ofWrites (List.replicate 5 .failed)

namespace Inner

/-- A flush of one entry to a full disk leaves the lines there as they were. -/
theorem diskLines_full {d : Inner Time} {e : AuditEntry Time} (hheld : d.held = [])
    (hp : d.pending = [e]) (hrot : ¬ d.Rotates .full) (now : Nat) :
    diskLines (flushInner E now .full d).volume = diskLines d.volume := by
  have hrotate : rotateIfNeeded .full d = d := if_neg hrot
  have hwritten : (writer E .full d).written = [] := by
    have hstart : (BufWriter.mk [] [] (List.replicate 5 .failed)).Refused 5 := ⟨rfl, 0, rfl⟩
    have hline := BufWriter.refused_writeLine hstart (e.line E.codecs)
    have hflush := BufWriter.refused_flushBuf hline
    have hwrites : FlushOutcome.full.writes = List.replicate 5 .failed := rfl
    rw [writer, hheld, hp, List.map_singleton, hwrites, BufWriter.writeLines, List.foldl_cons,
      List.foldl_nil, hflush.written]
  have hne : d.pending ≠ [] := by
    rw [hp]
    exact List.cons_ne_nil e []
  rw [flushInner_of_pending E hne, hrotate, hwritten, Volume.append_nil]

end Inner

/-- The first append to a new log, when it is time to flush. -/
def firstAppend (a : Appended Time) (o : FlushOutcome) : DiskOp Time :=
  .append a auditFlushInterval auditFlushInterval o

namespace Session

/-- Appended to a full disk: the entry is neither pending nor on disk. -/
theorem not_noLoss_full (a : Appended Time) :
    ¬ ((openAt E bareVolume none 0).step E (firstAppend a .full)).inner.NoLoss E
      ((openAt E bareVolume none 0).step E (firstAppend a .full)).appended := by
  set d := (openAt E bareVolume none 0).inner.buildEntry E a with hd
  have hinner : ((openAt E bareVolume none 0).step E (firstAppend a .full)).inner =
      Inner.flushInner E auditFlushInterval .full (d.2.queue d.1) :=
    Inner.push_of_due E (d := d.2) (Or.inr (Nat.le_refl auditFlushInterval)) _ _ _
  have hlines : diskLines (Inner.flushInner E auditFlushInterval .full (d.2.queue d.1)).volume
      = [] := by
    have hsmall : ¬ (d.2.queue d.1).Rotates .full := fun hrot => Bool.false_ne_true hrot
    rw [Inner.diskLines_full E (d := d.2.queue d.1) (e := d.1) rfl rfl hsmall]
    exact diskLines_openAppend bareVolume
  intro h
  rcases h.kept d.1 (List.mem_singleton_self _) with hpending | hdisk
  · have hne : (d.2.queue d.1).pending ≠ [] := List.cons_ne_nil d.1 []
    rw [hinner, Inner.flushInner_of_pending E hne] at hpending
    cases hpending
  · rw [hinner, hlines] at hdisk
    cases hdisk

/-- A line written in two goes, with an interruption. -/
theorem noLoss_of_careful_openFile :
    Run.Throughout (step AuditLog.rotatedEnv)
      (fun s => s.inner.NoLoss AuditLog.rotatedEnv s.appended)
      (openAt AuditLog.rotatedEnv bareVolume none 0)
      [firstAppend (openFile none) (.ofWrites [.wrote 10, .interrupted, .wrote 400])] := by
  refine noLoss_of_careful AuditLog.rotatedEnv (intact_bare _) ⟨fun _ => ⟨?_, ?_, ?_⟩, trivial⟩
  · decide
  · exact ⟨[], rfl, fun _ hr => absurd hr List.not_mem_nil⟩
  · exact fun hrot => absurd hrot Bool.false_ne_true

/-- A write that fails loses the entry, and its hash is persisted all the same. -/
theorem not_noLoss : ¬ ∀ (v : Volume LogName) (chain : Option (List UInt8)) (start : Nat)
    (ops : List (DiskOp { s : String // Json.escapedLen s ≤ 40 })),
    Intact AuditLog.rotatedEnv v chain →
      Run.Throughout (step AuditLog.rotatedEnv)
        (fun s => s.inner.NoLoss AuditLog.rotatedEnv s.appended)
        (openAt AuditLog.rotatedEnv v chain start) ops := by
  intro h
  exact not_noLoss_full AuditLog.rotatedEnv (openFile none)
    (h bareVolume none 0 [firstAppend (openFile none) .full] (intact_bare _) _ (List.prefix_refl _))

end Session

end Hal

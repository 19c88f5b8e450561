/-
# `Cognos.Hal.AuditDisk` — the audit log on a disk that fails

`audit_log.rs` again, with every call on the disk free to fail.  What the calls of a flush
or of a wipe come to is given with the call (`FlushOutcome`, `WipeOutcome`): whether a
rename or an open goes through, and how much each write takes.  The log ignores all of it
but the open of a wipe.

The writer keeps the file it opened, whatever its name becomes, and holds back in its
buffer what it could not pass on.

    toLog_flushInner   with calls that succeed, this is the log of `Cognos.Hal.AuditLog`
    toLog_after        and so is a whole run
-/
import Mathlib
import Cognos.Hal.AuditRuns
import Cognos.Lib.BufWriter
import Cognos.Lib.Volume

namespace Hal

/-- The log, the log set aside under a number, and the wiped log. -/
inductive LogName
  | log
  | rotated (i : Nat)
  | wiped
  deriving DecidableEq

/-- The files, with that of the persisted hash, as those of a log that never fails. -/
def LogDir.ofVolume (v : Volume LogName) (chain : Option (List UInt8)) : LogDir where
  log := (v.files .log).getD []
  rotated i := v.files (.rotated i)
  wiped := v.files .wiped
  chain := chain

/-- `Inner`, with the disk; `held` is the buffer of the writer, `chain` the file of the hash. -/
structure Inner (Time : Type) where
  volume : Volume LogName
  chain : Option (List UInt8)
  held : List UInt8
  pending : List (AuditEntry Time)
  lastFlush : Nat
  previousHash : String

/-- What the calls of `flush_inner` come to. -/
structure FlushOutcome where
  /-- The size of the log can be read. -/
  metadata : Bool
  /-- The file set aside under a number is found and renamed. -/
  moved : Nat → Bool
  /-- The log is renamed. -/
  setAside : Bool
  /-- A new log is opened. -/
  reopened : Bool
  /-- The writes of the old writer as it is dropped. -/
  dropped : List WriteResult
  /-- The writes of lines. -/
  writes : List WriteResult
  /-- The file of the hash is opened, and its writes. -/
  tip : Option (List WriteResult)

/-- What the calls of `wipe` come to. -/
structure WipeOutcome where
  /-- No one panicked while the lock was held. -/
  locked : Bool
  /-- The log is found and renamed. -/
  setAside : Bool
  opened : Bool
  dropped : List WriteResult
  removed : Bool

namespace Inner

variable {Time : Type} (E : LogEnv Time)

def dir (d : Inner Time) : LogDir := LogDir.ofVolume d.volume d.chain

/-- The log as one that never fails. -/
def toLog (d : Inner Time) : AuditLog Time where
  pending := d.pending
  lastFlush := d.lastFlush
  previousHash := d.previousHash
  dir := d.dir

/-- `open_at`, once the log is opened. -/
def openAt (v : Volume LogName) (chain : Option (List UInt8)) (now : Nat) : Inner Time where
  volume := v.openAppend .log
  chain := chain
  held := []
  pending := []
  lastFlush := now
  previousHash := (LogDir.ofVolume v chain).loadChainTip E

/-! ## Writing -/

/-- A turn of the loop of `rotate_static`, with a file under the number that can be moved. -/
def shift (i : Nat) (v : Volume LogName) : Volume LogName :=
  if maxRotatedFiles < i + 1 then v.remove (.rotated i)
  else v.rename (.rotated i) (.rotated (i + 1))

def shiftIf (o : FlushOutcome) (v : Volume LogName) (i : Nat) : Volume LogName :=
  if o.moved i then shift i v else v

/-- The renames of `rotate_static`. -/
def setAside (o : FlushOutcome) (v : Volume LogName) : Volume LogName :=
  let v := [4, 3, 2, 1].foldl (shiftIf o) v
  if o.setAside then v.rename .log (.rotated 1) else v

/-- The writer is replaced: the old one passes on what it can of its buffer. -/
def replaceWriter (dropped : List WriteResult) (held : List UInt8) (v : Volume LogName) :
    Volume LogName :=
  (v.append (drain dropped held).written).openAppend .log

/-- `rotate_static`. -/
def rotateStatic (o : FlushOutcome) (d : Inner Time) : Inner Time :=
  let v := setAside o d.volume
  if o.reopened then { d with volume := replaceWriter o.dropped d.held v, held := [] }
  else { d with volume := v }

/-- The size of the log, if there is one and it can be read. -/
def size? (o : FlushOutcome) (v : Volume LogName) : Option Nat :=
  if o.metadata then (v.files .log).map List.length else none

/-- `flush_inner` up to the entries. -/
def rotateIfNeeded (o : FlushOutcome) (d : Inner Time) : Inner Time :=
  if (size? o d.volume).any (maxLogSizeBytes < ·) then rotateStatic o d else d

/-- The writer after the lines of the pending entries and a flush. -/
def writer (o : FlushOutcome) (d : Inner Time) : BufWriter :=
  (BufWriter.writeLines (d.pending.map (AuditEntry.line E.codecs))
    ⟨d.held, [], o.writes⟩).flushBuf.2

/-- `std::fs::write(&inner.chain_path, &inner.previous_hash)`. -/
def persist (tip : Option (List WriteResult)) (hash : String) (chain : Option (List UInt8)) :
    Option (List UInt8) :=
  match tip with
  | none => chain
  | some results => some (drain results (Text.bytes hash)).written

/-- `flush_inner`. -/
def flushInner (now : Nat) (o : FlushOutcome) (d : Inner Time) : Inner Time :=
  if d.pending.isEmpty then d
  else
    let d := rotateIfNeeded o d
    let w := writer E o d
    { volume := d.volume.append w.written
      chain := persist o.tip d.previousHash d.chain
      held := w.buffer
      pending := []
      lastFlush := now
      previousHash := d.previousHash }

/-- A flush with nothing to write does nothing. -/
theorem flushInner_of_pending_nil {d : Inner Time} (h : d.pending = []) (now : Nat)
    (o : FlushOutcome) : flushInner E now o d = d :=
  if_pos (List.isEmpty_iff.mpr h)

theorem flushInner_of_pending {d : Inner Time} (h : d.pending ≠ []) (now : Nat)
    (o : FlushOutcome) :
    flushInner E now o d =
      { volume :=
          (rotateIfNeeded o d).volume.append (writer E o (rotateIfNeeded o d)).written
        chain := persist o.tip (rotateIfNeeded o d).previousHash (rotateIfNeeded o d).chain
        held := (writer E o (rotateIfNeeded o d)).buffer
        pending := []
        lastFlush := now
        previousHash := (rotateIfNeeded o d).previousHash } :=
  if_neg fun hempty => h (List.isEmpty_iff.mp hempty)

/-- `build_entry`: the entry, and the log with its hash. -/
def buildEntry (a : Appended Time) (d : Inner Time) : AuditEntry Time × Inner Time :=
  let e := (AuditLog.buildEntry E a d.toLog).1
  (e, { d with previousHash := e.chainHash })

/-- `inner.pending.push(entry)`. -/
def queue (e : AuditEntry Time) (d : Inner Time) : Inner Time :=
  { d with pending := d.pending ++ [e] }

/-- The second half of `append`. -/
def push (e : AuditEntry Time) (seen now : Nat) (o : FlushOutcome) (d : Inner Time) : Inner Time :=
  let d := d.queue e
  if flushEntryCount ≤ d.pending.length ∨ auditFlushInterval ≤ seen - d.lastFlush then
    flushInner E now o d
  else d

/-- `append`. -/
def append (a : Appended Time) (seen now : Nat) (o : FlushOutcome) (d : Inner Time) : Inner Time :=
  let (e, d) := buildEntry E a d
  push E e seen now o d

theorem push_of_due {d : Inner Time} {seen : Nat} (h : d.toLog.Due seen) (e : AuditEntry Time)
    (now : Nat) (o : FlushOutcome) : push E e seen now o d = flushInner E now o (d.queue e) := by
  have hlen : (d.queue e).pending.length = d.toLog.pending.length + 1 := List.length_append
  rw [push, hlen]
  exact if_pos h

theorem push_of_not_due {d : Inner Time} {seen : Nat} (h : ¬ d.toLog.Due seen)
    (e : AuditEntry Time) (now : Nat) (o : FlushOutcome) :
    push E e seen now o d = d.queue e := by
  have hlen : (d.queue e).pending.length = d.toLog.pending.length + 1 := List.length_append
  rw [push, hlen]
  exact if_neg h

/-- `flush`, which `query`, `verify` and `export` begin with. -/
def flush (now : Nat) (o : FlushOutcome) (d : Inner Time) : Inner Time := flushInner E now o d

/-- `wipe`, and whether it returns `Ok`. -/
def wipe (o : WipeOutcome) (d : Inner Time) : Bool × Inner Time :=
  if o.locked then
    let v := if o.setAside then d.volume.rename .log .wiped else d.volume
    if o.opened then
      (true,
        { d with
          volume := replaceWriter o.dropped d.held v
          chain := if o.removed then none else d.chain
          held := []
          pending := []
          previousHash := E.chain.genesis })
    else (false, { d with volume := v, pending := [] })
  else (true, d)

/-! ## Reading -/

/-- `verify` once the pending entries are flushed. -/
def verifyFiles (d : Inner Time) : VerifyResult :=
  match d.volume.files .log with
  | none => ⟨false, none, some "No such file or directory (os error 2)"⟩
  | some _ => AuditLog.verifyDir E d.dir

/-- `verify`; it panics when the lock is poisoned. -/
def verify (locked : Bool) (now : Nat) (o : FlushOutcome) (d : Inner Time) :
    Option VerifyResult :=
  if locked then some (verifyFiles E (flush E now o d)) else none

end Inner

/-! ## Calls that succeed -/

/-- No call of the flush fails. -/
structure FlushOutcome.Succeeds (o : FlushOutcome) : Prop where
  metadata : o.metadata = true
  moved : ∀ i, o.moved i = true
  setAside : o.setAside = true
  reopened : o.reopened = true
  writes : ∀ r ∈ o.writes, r.GoesOn
  tip : ∃ results, o.tip = some results ∧ ∀ r ∈ results, r.GoesOn

namespace Inner

variable {Time : Type} (E : LogEnv Time)

/-- The writer holds nothing back, and writes to the log. -/
structure Settled (d : Inner Time) : Prop where
  held : d.held = []
  log : ∃ bs, d.volume.Holds .log bs

/-- A new writer in the place of one that holds nothing back. -/
theorem replaceWriter_nil (dropped : List WriteResult) (v : Volume LogName) :
    replaceWriter dropped [] v = v.openAppend .log := by
  have hnil : (drain dropped []).written = [] :=
    (List.append_eq_nil_iff.mp (written_drain_append dropped [])).1
  rw [replaceWriter, hnil, Volume.append_nil]

theorem rotated_shift (i : Nat) (v : Volume LogName) :
    (fun j => (shift i v).files (.rotated j)) = LogDir.shift (fun j => v.files (.rotated j)) i := by
  have hname : ∀ {j k : Nat}, j ≠ k → LogName.rotated j ≠ .rotated k := by
    intro j k hjk heq
    exact hjk (LogName.rotated.inj heq)
  funext j
  rw [shift, LogDir.shift]
  by_cases hlast : maxRotatedFiles < i + 1
  · rw [if_pos hlast]
    show Function.update v.files _ none (.rotated j) = _
    cases hi : v.files (.rotated i) with
    | none =>
        by_cases hj : j = i
        · rw [hj, Function.update_self]
          exact hi.symm
        · rw [Function.update_of_ne (hname hj)]
    | some c =>
        show _ = (if maxRotatedFiles < i + 1 then _ else _ : Nat → Option (List UInt8)) j
        rw [if_pos hlast]
        by_cases hj : j = i
        · rw [hj, Function.update_self, Function.update_self]
        · rw [Function.update_of_ne (hname hj), Function.update_of_ne hj]
  · rw [if_neg hlast]
    cases hi : v.files (.rotated i) with
    | none => rw [Volume.rename_of_none hi]
    | some c =>
        show _ = (if maxRotatedFiles < i + 1 then _ else _ : Nat → Option (List UInt8)) j
        rw [if_neg hlast]
        have hne : LogName.rotated i ≠ .rotated (i + 1) := hname (Nat.succ_ne_self i).symm
        by_cases hj : j = i
        · rw [hj, Volume.files_rename_source hne, Function.update_self]
        · rw [Function.update_of_ne hj]
          by_cases hj' : j = i + 1
          · rw [hj', Volume.files_rename_target, hi, Function.update_self]
            rfl
          · rw [Volume.files_rename_of_ne (hname hj) (hname hj'), Function.update_of_ne hj']

theorem files_shift {i : Nat} {v : Volume LogName} {n : LogName} (h : ∀ j, n ≠ .rotated j) :
    (shift i v).files n = v.files n := by
  rw [shift]
  split
  · exact Volume.files_remove_of_ne (h i)
  · exact Volume.files_rename_of_ne (h i) (h (i + 1))

theorem holds_shift {i : Nat} {v : Volume LogName} {bs : List UInt8} (h : v.Holds .log bs) :
    (Inner.shift i v).Holds .log bs := by
  have hne : ∀ j, LogName.log ≠ .rotated j := by
    intro j heq
    cases heq
  rw [Inner.shift]
  split
  · exact h.remove_of_ne (hne i)
  · exact h.rename_of_ne (hne i) (hne (i + 1))

/-- The files beside the log, after the loop. -/
theorem foldl_shift (is : List Nat) (v : Volume LogName) {bs : List UInt8}
    (h : v.Holds .log bs) :
    (fun j => (is.foldl (fun v i => shift i v) v).files (.rotated j)) =
        is.foldl LogDir.shift (fun j => v.files (.rotated j)) ∧
      (is.foldl (fun v i => shift i v) v).files .wiped = v.files .wiped ∧
      (is.foldl (fun v i => shift i v) v).Holds .log bs := by
  induction is generalizing v with
  | nil => exact ⟨rfl, rfl, h⟩
  | cons i is ih =>
      obtain ⟨hrotated, hwiped, hlog⟩ := ih (shift i v) (holds_shift h)
      rw [rotated_shift] at hrotated
      refine ⟨hrotated, hwiped.trans (files_shift ?_), hlog⟩
      intro j heq
      cases heq

/-- Set aside with renames that succeed, the files are those of `LogDir.rotate`. -/
theorem ofVolume_rotate {o : FlushOutcome} (ho : o.Succeeds) {v : Volume LogName}
    {bs : List UInt8} (h : v.Holds .log bs) (chain : Option (List UInt8)) :
    LogDir.ofVolume ((setAside o v).openAppend .log) chain = (LogDir.ofVolume v chain).rotate ∧
      ((setAside o v).openAppend .log).Holds .log [] := by
  have hfold : [4, 3, 2, 1].foldl (shiftIf o) v = [4, 3, 2, 1].foldl (fun v i => shift i v) v := by
    simp only [List.foldl_cons, List.foldl_nil, shiftIf, ho.moved, if_true]
  obtain ⟨hrotated, hwiped, hlog⟩ := foldl_shift [4, 3, 2, 1] v h
  rw [← hfold] at hrotated hwiped hlog
  have haside : setAside o v = ([4, 3, 2, 1].foldl (shiftIf o) v).rename .log (.rotated 1) :=
    if_pos ho.setAside
  rw [haside]
  generalize [4, 3, 2, 1].foldl (shiftIf o) v = u at *
  have hgone : (u.rename .log (.rotated 1)).files .log = none :=
    Volume.files_rename_source (by decide)
  have hnew : ((u.rename .log (.rotated 1)).openAppend .log).Holds .log [] := by
    have hopen := Volume.holds_openAppend LogName.log (u.rename .log (.rotated 1))
    rw [hgone] at hopen
    exact hopen
  refine ⟨?_, hnew⟩
  have hother : ∀ n, n ≠ .log → n ≠ .rotated 1 →
      ((u.rename .log (.rotated 1)).openAppend .log).files n = u.files n := by
    intro n hn hn'
    rw [Volume.files_openAppend_of_ne hn, Volume.files_rename_of_ne hn hn']
  rw [LogDir.ofVolume, LogDir.rotate, hnew.file, hother .wiped (by decide) (by decide), hwiped]
  congr 1
  funext j
  by_cases hj : j = 1
  · rw [hj, Volume.files_openAppend_of_ne (by decide), Volume.files_rename_target, hlog.file,
      Function.update_self, LogDir.ofVolume, h.file]
    rfl
  · have hname : LogName.rotated j ≠ .rotated 1 := fun heq => hj (LogName.rotated.inj heq)
    rw [Function.update_of_ne hj, hother (.rotated j) (by intro heq; cases heq) hname]
    exact congrFun hrotated j

theorem ofVolume_append {v : Volume LogName} {bs : List UInt8} (h : v.Holds .log bs)
    (cs : List UInt8) (chain : Option (List UInt8)) :
    LogDir.ofVolume (v.append cs) chain = { LogDir.ofVolume v chain with log := bs ++ cs } := by
  rw [LogDir.ofVolume, (h.append cs).file, h.append_of_ne (by decide)]
  congr 1
  funext i
  exact h.append_of_ne (by intro heq; cases heq) cs

/-- Written without a failure, the hash is all there is in its file. -/
theorem persist_goesOn {tip : Option (List WriteResult)}
    (h : ∃ results, tip = some results ∧ ∀ r ∈ results, r.GoesOn) (hash : String)
    (chain : Option (List UInt8)) : persist tip hash chain = some (Text.bytes hash) := by
  obtain ⟨results, rfl, hgo⟩ := h
  exact congrArg some (written_drain hgo (Text.bytes hash))

/-- The lines of the pending entries, through a writer that holds nothing back. -/
theorem writer_goesOn {o : FlushOutcome} {d : Inner Time} (hheld : d.held = [])
    (ho : ∀ r ∈ o.writes, r.GoesOn) :
    (writer E o d).buffer = [] ∧ (writer E o d).written = AuditLog.fileOf E d.pending := by
  obtain ⟨hbuf, hwritten⟩ := BufWriter.flushBuf_writeLines (w := ⟨d.held, [], o.writes⟩) ho
    (d.pending.map (AuditEntry.line E.codecs))
  refine ⟨hbuf, hwritten.trans ?_⟩
  rw [BufWriter.stream, hheld]
  rfl

/-- A flush whose calls succeed is one of a log that never fails. -/
theorem toLog_flushInner {d : Inner Time} (hd : d.Settled) {o : FlushOutcome} (ho : o.Succeeds)
    (now : Nat) : (flushInner E now o d).toLog = AuditLog.flushInner E now d.toLog ∧
      (flushInner E now o d).Settled := by
  obtain ⟨hheld, bs, hlog⟩ := hd
  by_cases hp : d.pending.isEmpty = true
  · rw [flushInner, AuditLog.flushInner, if_pos hp]
    exact ⟨(if_pos hp).symm, hheld, bs, hlog⟩
  -- the files before the lines are written
  have hdir : ∃ cs, (rotateIfNeeded o d).volume.Holds .log cs ∧
      (rotateIfNeeded o d).held = [] ∧ (rotateIfNeeded o d).pending = d.pending ∧
      (rotateIfNeeded o d).previousHash = d.previousHash ∧
      (rotateIfNeeded o d).dir =
        if maxLogSizeBytes < d.toLog.dir.log.length then d.toLog.dir.rotate else d.toLog.dir := by
    have hsize : size? o d.volume = some bs.length := by
      rw [size?, if_pos ho.metadata, hlog.file, Option.map_some]
    have hbytes : d.toLog.dir.log = bs := by
      show (d.volume.files .log).getD [] = bs
      rw [hlog.file, Option.getD_some]
    rw [rotateIfNeeded, hsize, hbytes, Option.any_some]
    by_cases hlong : maxLogSizeBytes < bs.length
    · obtain ⟨hrotate, hnew⟩ := ofVolume_rotate ho hlog d.chain
      rw [if_pos (decide_eq_true hlong), if_pos hlong, rotateStatic, if_pos ho.reopened, hheld,
        replaceWriter_nil]
      exact ⟨[], hnew, rfl, rfl, rfl, hrotate⟩
    · rw [if_neg (by rw [decide_eq_true_eq]; exact hlong), if_neg hlong]
      exact ⟨bs, hlog, hheld, rfl, rfl, rfl⟩
  obtain ⟨cs, hcs, hheld', hpending, hhash, hfiles⟩ := hdir
  obtain ⟨hbuf, hwritten⟩ := writer_goesOn E hheld' ho.writes
  have hcs' : (rotateIfNeeded o d).dir.log = cs := by
    show ((rotateIfNeeded o d).volume.files .log).getD [] = cs
    rw [hcs.file, Option.getD_some]
  have hp' : ¬ d.toLog.pending.isEmpty = true := hp
  rw [flushInner_of_pending E (fun hnil => hp (List.isEmpty_iff.mpr hnil)), AuditLog.flushInner,
    if_neg hp']
  refine ⟨?_, hbuf, _, hcs.append _⟩
  rw [toLog, dir]
  show AuditLog.mk _ _ _ (LogDir.ofVolume (Volume.append _ _) _) = AuditLog.mk _ _ _ _
  rw [persist_goesOn ho.tip, ofVolume_append hcs, hwritten, hpending, hhash, ← hcs', ← hfiles]
  rfl

/-! ## Runs -/

end Inner

/-- One call on a log, with the instants it reads and what its calls on the disk come to. -/
inductive DiskOp (Time : Type)
  | append (a : Appended Time) (seen now : Nat) (o : FlushOutcome)
  | flush (now : Nat) (o : FlushOutcome)

namespace DiskOp

variable {Time : Type} (E : LogEnv Time)

def step (d : Inner Time) : DiskOp Time → Inner Time
  | .append a seen now o => d.append E a seen now o
  | .flush now o => d.flush E now o

/-- The call on a log that never fails. -/
def call : DiskOp Time → LogOp Time
  | .append a seen now _ => .append a seen now
  | .flush now _ => .flush now

def outcome : DiskOp Time → FlushOutcome
  | .append _ _ _ o | .flush _ o => o

/-- A call that succeeds is one on a log that never fails. -/
theorem toLog_step {d : Inner Time} (hd : d.Settled) {op : DiskOp Time}
    (ho : op.outcome.Succeeds) :
    (op.step E d).toLog = op.call.step E d.toLog ∧ (op.step E d).Settled := by
  cases op with
  | append a seen now o =>
      have hqueued : ((Inner.buildEntry E a d).2.queue (Inner.buildEntry E a d).1).Settled :=
        ⟨hd.held, hd.log⟩
      show (Inner.push E _ seen now o (Inner.buildEntry E a d).2).toLog =
        AuditLog.push E _ seen now (Inner.buildEntry E a d).2.toLog ∧ _
      by_cases hdue : (Inner.buildEntry E a d).2.toLog.Due seen
      · have hstep : DiskOp.step E d (.append a seen now o) = _ := Inner.push_of_due E hdue _ now o
        rw [Inner.push_of_due E hdue, AuditLog.push_of_due E hdue, hstep]
        exact Inner.toLog_flushInner E hqueued ho now
      · have hstep : DiskOp.step E d (.append a seen now o) = _ :=
          Inner.push_of_not_due E hdue _ now o
        rw [Inner.push_of_not_due E hdue, AuditLog.push_of_not_due E hdue, hstep]
        exact ⟨rfl, hqueued⟩
  | flush now o => exact Inner.toLog_flushInner E hd ho now

/-- And a run of such calls is a run of such a log. -/
theorem toLog_after {d : Inner Time} (hd : d.Settled) {ops : List (DiskOp Time)}
    (ho : ∀ op ∈ ops, op.outcome.Succeeds) :
    (Run.after (step E) d ops).toLog = Run.after (LogOp.step E) d.toLog (ops.map call) ∧
      (Run.after (step E) d ops).Settled := by
  induction ops generalizing d with
  | nil => exact ⟨rfl, hd⟩
  | cons op ops ih =>
      obtain ⟨hop, hops⟩ := List.forall_mem_cons.mp ho
      obtain ⟨hlog, hsettled⟩ := toLog_step E hd hop
      rw [List.map_cons, Run.after_cons, Run.after_cons, ← hlog]
      exact ih hsettled hops

end DiskOp

end Hal

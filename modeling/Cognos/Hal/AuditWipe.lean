/-
# `Cognos.Hal.AuditWipe` — a wipe on a disk that fails

A wipe forgets what is pending, renames the log, opens a new one and removes the persisted
hash.  It reports the open only, and after the fact.  Here is when it is all or nothing: an
error leaves everything as it was, and a success leaves an empty log that verifies, then
and later.

Later calls are those of a log in good order: no call on the disk fails, every score is a
number, and no file grows beyond the limit.

    log_replaceWriter   when the log is empty under its new writer
    wiped_of_fresh      an empty log with no persisted hash verifies from then on
    allOrNothing_iff    which wipes keep the promise
-/
import Mathlib
import Cognos.Hal.AuditLoss

namespace Hal

variable {Time : Type} (E : LogEnv Time)

namespace Inner

/-! ## The promise -/

/-- What a wipe that fails leaves as it was. -/
structure Unchanged (d d' : Inner Time) : Prop where
  log : d'.volume.files .log = d.volume.files .log
  pending : d'.pending = d.pending
  head : d'.previousHash = d.previousHash
  tip : d'.chain = d.chain

/-- Calls, and a check after them, of a log in good order. -/
structure InOrder (d : Inner Time) (ops : List (DiskOp Time)) (now : Nat) (o : FlushOutcome) :
    Prop where
  succeed : ∀ op ∈ ops, op.outcome.Succeeds
  last : o.Succeeds
  finite : ∀ op ∈ ops, op.call.FiniteScore
  inPlace : Run.Along (LogOp.step E) (fun l op => ¬ op.Rotates l) d.toLog
    (ops.map DiskOp.call ++ [.verify now])

/-- What a wipe that succeeds leads to. -/
structure Wiped (locked : Bool) (d : Inner Time) : Prop where
  log : d.volume.files .log = some []
  head : d.previousHash = E.chain.genesis
  valid : ∀ now o, (verify E locked now o d).any (·.valid) = true
  later : ∀ ops now o, d.InOrder E ops now o →
    (verify E locked now o (Run.after (DiskOp.step E) d ops)).any (·.valid) = true

/-- All or nothing. -/
def AllOrNothing (o : WipeOutcome) (d : Inner Time) : Prop :=
  if (wipe E o d).1 = true then Wiped E o.locked (wipe E o d).2
  else Unchanged d (wipe E o d).2

end Inner

/-- The wipe fails before it did anything that shows, or none of its calls leaves anything. -/
structure WipeOutcome.Clean (o : WipeOutcome) (d : Inner Time) : Prop where
  locked : o.locked = true
  kept : o.opened = false →
    d.pending = [] ∧ (o.setAside = true → d.volume.files .log = none)
  emptied : o.opened = true →
    o.setAside = true ∨ d.volume.files .log = none ∨
      (d.volume.files .log = some [] ∧
        (d.volume.handle = some .log → (drain o.dropped d.held).written = []))
  untipped : o.opened = true → o.removed = true ∨ d.dir.loadChainTip E = E.chain.genesis

namespace Inner

/-! ## The new log -/

/-- The log is empty under its new writer when it was gone, or was empty and the old writer put
nothing into it. -/
theorem log_replaceWriter {dropped : List WriteResult} {held : List UInt8}
    {v : Volume LogName} :
    (replaceWriter dropped held v).files .log = some [] ↔
      v.files .log = none ∨ (v.files .log = some [] ∧
        (v.handle = some .log → (drain dropped held).written = [])) := by
  have hnew : (replaceWriter dropped held v).files .log =
      some (((v.append (drain dropped held).written).files .log).getD []) :=
    (Volume.holds_openAppend LogName.log (v.append (drain dropped held).written)).file
  rw [hnew, Option.some_inj]
  by_cases hhandle : v.handle = some .log
  · have hlog : (v.append (drain dropped held).written).files .log =
        (v.files .log).map (· ++ (drain dropped held).written) :=
      Volume.files_append hhandle
    rw [hlog]
    cases v.files .log with
    | none => simp
    | some bs => simp [hhandle]
  · have hlog : (v.append (drain dropped held).written).files .log = v.files .log :=
      Volume.files_append_of_ne hhandle
    rw [hlog]
    cases v.files .log with
    | none => simp
    | some bs => simp [hhandle]

/-- A persisted hash that is gone stands for no entries. -/
theorem loadChainTip_removed {removed : Bool} {d : Inner Time} :
    (LogDir.ofVolume d.volume (if removed = true then none else d.chain)).loadChainTip E =
        E.chain.genesis ↔
      removed = true ∨ d.dir.loadChainTip E = E.chain.genesis := by
  cases removed with
  | true => exact iff_of_true rfl (Or.inl rfl)
  | false =>
      constructor
      · exact Or.inr
      · rintro (h | h)
        · cases h
        · exact h

/-! ## Empty logs -/

theorem verify_of_pending_nil {d : Inner Time} (h : d.pending = []) (now : Nat)
    (o : FlushOutcome) : verify E true now o d = some (verifyFiles E d) := by
  rw [verify, if_pos rfl, flush, flushInner_of_pending_nil E h]

theorem verifyFiles_of_log {d : Inner Time} {bs : List UInt8}
    (h : d.volume.files .log = some bs) : verifyFiles E d = AuditLog.verifyDir E d.dir := by
  rw [verifyFiles, h]

/-- An empty log is valid when no hash of an entry is persisted. -/
theorem valid_empty_iff {d : Inner Time} (h : d.volume.files .log = some []) :
    (verifyFiles E d).valid = true ↔ d.dir.loadChainTip E = E.chain.genesis := by
  have hlog : d.dir.log = AuditLog.fileOf E [] := by
    show (d.volume.files .log).getD [] = _
    rw [h]
    rfl
  have hentries : AuditLog.entriesOf E d.dir.log = some [] := by
    rw [hlog, AuditLog.entriesOf_fileOf E (List.forall_mem_nil _)]
  rw [verifyFiles_of_log E h, AuditLog.verifyDir_valid_iff, hentries]
  constructor
  · rintro ⟨es, hes, -, hhead⟩
    cases hes
    exact hhead.symm
  · intro htip
    exact ⟨[], rfl, trivial, htip.symm⟩

/-- An empty log, a new writer and no persisted hash: it verifies, and goes on verifying. -/
theorem wiped_of_fresh {d : Inner Time} (hlog : d.volume.Holds .log []) (hheld : d.held = [])
    (hpending : d.pending = []) (hhead : d.previousHash = E.chain.genesis)
    (htip : d.dir.loadChainTip E = E.chain.genesis) : Wiped E true d := by
  refine ⟨hlog.file, hhead, fun now o => ?_, fun ops now o h => ?_⟩
  · rw [verify_of_pending_nil E hpending]
    exact (valid_empty_iff E hlog.file).mpr htip
  · have hsound : LogOp.Sound E [] d.toLog := by
      have hfile : d.toLog.dir.log = AuditLog.fileOf E [] := by
        show (d.volume.files .log).getD [] = _
        rw [hlog.file]
        rfl
      have hp : d.toLog.pending = [] := hpending
      refine ⟨⟨⟨hfile, ?_, ?_⟩, htip⟩, ?_⟩
      · rw [hp]
        trivial
      · rw [hp]
        exact hhead
      · rw [hp]
        exact List.forall_mem_nil _
    have hvalid := AuditLog.valid_after E ⟨[], hsound⟩
      (List.forall_mem_map.mpr h.finite) h.inPlace
    obtain ⟨hrun, hsettled⟩ := DiskOp.toLog_after E ⟨hheld, [], hlog⟩ h.succeed
    obtain ⟨hflush, -, bs, hbs⟩ := toLog_flushInner E hsettled h.last now
    rw [← hrun] at hvalid
    have hdir : (flush E now o (Run.after (DiskOp.step E) d ops)).dir =
        (AuditLog.flush E now (Run.after (DiskOp.step E) d ops).toLog).dir :=
      congrArg AuditLog.dir hflush
    have hlog' : (flush E now o (Run.after (DiskOp.step E) d ops)).volume.files .log = some bs :=
      hbs.file
    rw [verify, if_pos rfl, verifyFiles_of_log E hlog', hdir]
    exact hvalid

/-! ## Which wipes keep the promise -/

/-- All or nothing: when the new log cannot be opened, nothing was pending and no log was renamed;
when it is opened, the old log is out of the way or empty, and so is the persisted hash. -/
theorem allOrNothing_iff (o : WipeOutcome) (d : Inner Time) :
    d.AllOrNothing E o ↔ o.Clean E d := by
  cases hlocked : o.locked with
  | false =>
      have hwipe : wipe E o d = (true, d) := by
        rw [wipe, hlocked]
        exact if_neg Bool.false_ne_true
      refine iff_of_false (fun h => ?_) (fun h => ?_)
      · rw [AllOrNothing, hwipe, if_pos rfl, hlocked] at h
        -- the lock is poisoned, so a check panics
        exact Bool.false_ne_true (h.valid 0 (.ofWrites []))
      · rw [h.locked] at hlocked
        cases hlocked
  | true =>
      set v := if o.setAside = true then d.volume.rename .log .wiped else d.volume with hv
      have hgone : o.setAside = true → v.files .log = none := by
        intro haside
        rw [hv, if_pos haside]
        exact Volume.files_rename_source (by decide)
      have hstays : o.setAside = false → v = d.volume := by
        intro haside
        rw [hv, haside]
        exact if_neg Bool.false_ne_true
      cases hopened : o.opened with
      | false =>
          have hwipe : wipe E o d = (false, { d with volume := v, pending := [] }) := by
            rw [wipe, if_pos hlocked, if_neg (by rw [hopened]; exact Bool.false_ne_true)]
          rw [AllOrNothing, hwipe, if_neg Bool.false_ne_true]
          constructor
          · intro h
            have hlog : v.files .log = d.volume.files .log := h.log
            refine ⟨hlocked, fun _ => ⟨h.pending.symm, fun haside => ?_⟩, ?_, ?_⟩
            · rw [← hlog, hgone haside]
            · exact fun hopen => absurd (hopened.symm.trans hopen) Bool.false_ne_true
            · exact fun hopen => absurd (hopened.symm.trans hopen) Bool.false_ne_true
          · intro h
            obtain ⟨hpending, hlog⟩ := h.kept hopened
            refine ⟨?_, hpending.symm, rfl, rfl⟩
            show v.files .log = d.volume.files .log
            cases haside : o.setAside with
            | true => rw [hgone haside, hlog haside]
            | false => rw [hstays haside]
      | true =>
          set d' : Inner Time :=
            { d with
              volume := replaceWriter o.dropped d.held v
              chain := if o.removed = true then none else d.chain
              held := []
              pending := []
              previousHash := E.chain.genesis } with hd'
          have hwipe : wipe E o d = (true, d') := by
            rw [wipe, if_pos hlocked, if_pos hopened]
          have hemptied : d'.volume.files .log = some [] ↔
              o.setAside = true ∨ d.volume.files .log = none ∨
                (d.volume.files .log = some [] ∧
                  (d.volume.handle = some .log → (drain o.dropped d.held).written = [])) := by
            show (replaceWriter o.dropped d.held v).files .log = some [] ↔ _
            rw [log_replaceWriter]
            cases haside : o.setAside with
            | true => exact iff_of_true (Or.inl (hgone haside)) (Or.inl rfl)
            | false =>
                rw [hstays haside]
                exact ⟨Or.inr, fun h => h.resolve_left Bool.false_ne_true⟩
          have htip : d'.dir.loadChainTip E = E.chain.genesis ↔
              o.removed = true ∨ d.dir.loadChainTip E = E.chain.genesis :=
            loadChainTip_removed E
          rw [AllOrNothing, hwipe, if_pos rfl, hlocked]
          constructor
          · intro h
            refine ⟨hlocked, ?_, fun _ => hemptied.mp h.log, fun _ => htip.mp ?_⟩
            · exact fun hopen => absurd (hopen.symm.trans hopened) Bool.false_ne_true
            · have hvalid := h.valid 0 (.ofWrites [])
              rw [verify_of_pending_nil E rfl] at hvalid
              exact (valid_empty_iff E h.log).mp hvalid
          · intro h
            have hlog := hemptied.mpr (h.emptied hopened)
            have hholds : d'.volume.Holds .log [] := ⟨rfl, hlog⟩
            exact wiped_of_fresh E hholds rfl rfl rfl (htip.mpr (h.untipped hopened))

/-- The log is renamed and no new one can be opened: the wipe fails, and what was pending is
gone. -/
theorem not_allOrNothing : ¬ ∀ (o : WipeOutcome)
    (d : Inner { s : String // Json.escapedLen s ≤ 40 }),
    d.AllOrNothing AuditLog.rotatedEnv o := by
  intro h
  let built := buildEntry AuditLog.rotatedEnv (openFile none)
    (openAt AuditLog.rotatedEnv bareVolume none 0)
  have hdue : ¬ built.2.toLog.Due 0 := by
    rintro (hcount | htime)
    · exact absurd hcount (by decide)
    · exact absurd htime (by decide)
  -- one entry is pending in a new log
  have hstep : DiskOp.step AuditLog.rotatedEnv (openAt AuditLog.rotatedEnv bareVolume none 0)
      (.append (openFile none) 0 0 (.ofWrites [])) = built.2.queue built.1 :=
    push_of_not_due AuditLog.rotatedEnv hdue built.1 0 (.ofWrites [])
  have hwipe := h ⟨true, true, false, [], false⟩
    (DiskOp.step AuditLog.rotatedEnv (openAt AuditLog.rotatedEnv bareVolume none 0)
      (.append (openFile none) 0 0 (.ofWrites [])))
  rw [hstep, AllOrNothing] at hwipe
  have hkept : Unchanged (built.2.queue built.1) _ := hwipe
  exact absurd hkept.pending.symm (List.cons_ne_nil _ _)

end Inner

end Hal

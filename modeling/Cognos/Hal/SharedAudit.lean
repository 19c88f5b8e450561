/-
# `Cognos.Hal.SharedAudit` — three writers, one audit file

The HAL daemon and the calibration append to `~/.cognos/audit.log` as well, each a line of
its own form.  Neither form has a chain hash, so no such line reads as an audit entry and
a file with one in it does not verify.

    readLine_foreign    what the log makes of a line of the other writers
    verify_shared_iff   the runs after which the file verifies
-/
import Mathlib
import Cognos.Hal.ApprovalFlow
import Cognos.Hal.AuditRuns
import Cognos.Hal.TrustCalibration

namespace Hal

open AuditLog

variable {Time : Type} (E : LogEnv Time) (rfc3339 : Time → String)

/-! ## Lines of the other writers -/

/-- A line that another component appends. -/
inductive ForeignLine (Time : Type)
  | gate (e : FlowEntry Time)
  | calibration (event : CalibrationEvent)

def ForeignLine.line : ForeignLine Time → String
  | .gate e => e.line E.codecs rfc3339
  | .calibration event => event.line E.codecs

theorem readLine_foreign (f : ForeignLine Time) :
    AuditEntry.readLine E.codecs (f.line E rfc3339) = none := by
  cases f with
  | gate e =>
      have hnames : (e.members E.codecs rfc3339).map Prod.fst = ["action", "agent", "hal_level",
        "hal_score", "intent_id", "is_ai_generated", "note", "outcome", "request_id", "target",
        "ts"] := rfl
      exact AuditEntry.readLine_of_no_hash _ (by rw [hnames]; decide) rfl
  | calibration event =>
      have hnames : (event.members E.codecs).map Prod.fst = ["action", "action_class", "agent",
        "feedback", "new_threshold", "old_threshold", "outcome", "ts"] := rfl
      exact AuditEntry.readLine_of_no_hash _ (by rw [hnames]; decide) rfl

/-! ## A file with a line that is not an entry -/

/-- The log is a file of lines, and one of them is not an entry. -/
def Spoiled (log : List UInt8) : Prop :=
  ∃ ls, log = Text.unlines ls ∧ (∀ l ∈ ls, Text.IsLine l) ∧
    ∃ l ∈ ls, AuditEntry.readLine E.codecs l = none

/-- The log is a file of lines. -/
def Lined (log : List UInt8) : Prop := ∃ ls, log = Text.unlines ls ∧ ∀ l ∈ ls, Text.IsLine l

theorem lined_fileOf (es : List (AuditEntry Time)) : Lined (fileOf E es) := by
  refine ⟨es.map (AuditEntry.line E.codecs), rfl, ?_⟩
  intro l hl
  obtain ⟨e, -, rfl⟩ := List.mem_map.mp hl
  exact Json.isLine_print _

theorem Lined.append {log more : List UInt8} (h : Lined log) (hmore : Lined more) :
    Lined (log ++ more) := by
  obtain ⟨ls, rfl, hls⟩ := h
  obtain ⟨ms, rfl, hms⟩ := hmore
  refine ⟨ls ++ ms, (Text.unlines_append ls ms).symm, ?_⟩
  intro l hl
  rcases List.mem_append.mp hl with hl | hl
  · exact hls l hl
  · exact hms l hl

theorem Spoiled.append {log more : List UInt8} (h : Spoiled E log) (hmore : Lined more) :
    Spoiled E (log ++ more) := by
  obtain ⟨ls, rfl, hls, l, hl, hread⟩ := h
  obtain ⟨ks, hks, hlines⟩ := Lined.append ⟨ls, rfl, hls⟩ hmore
  obtain ⟨ms, rfl, hms⟩ := hmore
  refine ⟨ls ++ ms, (Text.unlines_append ls ms).symm, ?_, l, List.mem_append_left _ hl, hread⟩
  intro k hk
  rcases List.mem_append.mp hk with hk | hk
  · exact hls k hk
  · exact hms k hk

/-- It does not verify. -/
theorem Spoiled.not_valid {d : LogDir} (h : Spoiled E d.log) : (verifyDir E d).valid ≠ true := by
  intro hvalid
  obtain ⟨es, hes, -⟩ := (verifyDir_valid_iff E).mp hvalid
  obtain ⟨ls, hlog, hls, l, hl, hread⟩ := h
  rw [hlog, entriesOf_unlines E hls] at hes
  clear hlog hls
  induction ls generalizing es with
  | nil => cases hl
  | cons k ks ih =>
      rw [List.mapM_cons] at hes
      obtain ⟨e, he, hes⟩ := Option.bind_eq_some_iff.mp hes
      obtain ⟨rest, hrest, -⟩ := Option.bind_eq_some_iff.mp hes
      rcases List.mem_cons.mp hl with rfl | hl
      · rw [hread] at he
        cases he
      · exact ih rest hrest hl

/-! ## Runs -/

/-- A call on the log, or a line of another component. -/
inductive SharedOp (Time : Type)
  | log (op : LogOp Time)
  | foreign (f : ForeignLine Time)

namespace SharedOp

def step (l : AuditLog Time) : SharedOp Time → AuditLog Time
  | .log op => op.step E l
  | .foreign f =>
      { l with dir := { l.dir with
          log := l.dir.log ++ Text.unlines [f.line E rfc3339] } }

/-- The log is appended to or flushed, with a number for a score. -/
def Plain : SharedOp Time → Prop
  | .log op => op.Writes ∧ op.FiniteScore
  | .foreign _ => True

/-- The step sets a file aside. -/
def Rotates (l : AuditLog Time) : SharedOp Time → Prop
  | .log op => op.Rotates l
  | .foreign _ => False

def IsForeign : SharedOp Time → Prop
  | .log _ => False
  | .foreign _ => True

/-- A call on the log adds lines to its file. -/
theorem lined_step {l : AuditLog Time} {op : LogOp Time} (hop : op.Writes)
    (hrot : ¬ op.Rotates l) : ∃ more, (op.step E l).dir.log = l.dir.log ++ more ∧ Lined more := by
  cases op with
  | append a seen now =>
      have hbuilt : (AuditLog.append E a seen now l)
          = AuditLog.push E (buildEntry E a l).1 seen now (buildEntry E a l).2 := rfl
      rw [LogOp.step, hbuilt]
      by_cases hdue : (buildEntry E a l).2.Due seen
      · have hsmall : ¬ AuditLog.Rotates { (buildEntry E a l).2 with
            pending := (buildEntry E a l).2.pending ++ [(buildEntry E a l).1] } :=
          fun hr => hrot ⟨hdue, hr.2⟩
        rw [push_of_due E hdue]
        exact ⟨_, log_flushInner E hsmall now, lined_fileOf E _⟩
      · rw [push_of_not_due E hdue]
        exact ⟨[], (List.append_nil _).symm, [], rfl, fun _ hl => absurd hl List.not_mem_nil⟩
  | flush now => exact ⟨_, log_flushInner E hrot now, lined_fileOf E _⟩
  | query f now => exact hop.elim
  | verify now => exact hop.elim
  | wipe => exact hop.elim
  | reopen now => exact hop.elim

/-- Once a foreign line is in the file, it stays. -/
theorem spoiled_along {ops : List (SharedOp Time)} {l : AuditLog Time} (hl : Lined l.dir.log)
    (hops : ∀ op ∈ ops, op.Plain)
    (hrot : Run.Along (step E rfc3339) (fun l op => ¬ op.Rotates l) l ops)
    (h : Spoiled E l.dir.log ∨ ∃ op ∈ ops, op.IsForeign) :
    Spoiled E (Run.after (step E rfc3339) l ops).dir.log := by
  induction ops generalizing l with
  | nil =>
      rcases h with h | ⟨op, hop, -⟩
      · exact h
      · cases hop
  | cons op ops ih =>
      have hrest : ∀ op ∈ ops, op.Plain := fun op hop => hops op (List.mem_cons_of_mem _ hop)
      cases op with
      | log op =>
          obtain ⟨more, hlog, hmore⟩ :=
            lined_step E (hops (.log op) List.mem_cons_self).1 hrot.1
          have hlog' : (step E rfc3339 l (.log op)).dir.log = l.dir.log ++ more := hlog
          refine ih (hlog' ▸ hl.append hmore) hrest hrot.2 ?_
          rw [hlog']
          rcases h with h | ⟨op', hop', hforeign⟩
          · exact Or.inl (h.append E hmore)
          · rcases List.mem_cons.mp hop' with rfl | hop'
            · exact hforeign.elim
            · exact Or.inr ⟨op', hop', hforeign⟩
      | foreign f =>
          have hline : Text.IsLine (f.line E rfc3339) := by
            cases f <;> exact Json.isLine_print _
          have hone : ∀ l ∈ [f.line E rfc3339], Text.IsLine l := fun k hk =>
            (List.mem_singleton.mp hk) ▸ hline
          refine ih (hl.append ⟨_, rfl, hone⟩) hrest hrot.2 (Or.inl ?_)
          obtain ⟨ls, hlog, hls⟩ := hl
          show Spoiled E (l.dir.log ++ Text.unlines [f.line E rfc3339])
          refine ⟨ls ++ [f.line E rfc3339], by rw [hlog, Text.unlines_append], ?_, _,
            List.mem_append_right _ (List.mem_singleton_self _), readLine_foreign E rfc3339 f⟩
          intro k hk
          rcases List.mem_append.mp hk with hk | hk
          · exact hls k hk
          · exact hone k hk

/-- Without foreign lines a run is one of the log alone. -/
theorem sound_along {ops : List (SharedOp Time)} {start : Nat} (hops : ∀ op ∈ ops, op.Plain)
    (hrot : Run.Along (step E rfc3339) (fun l op => ¬ op.Rotates l)
      (openAt E LogDir.fresh start) ops)
    (halone : ∀ op ∈ ops, ¬ op.IsForeign) :
    ∃ written, LogOp.Sound E written
      (Run.after (step E rfc3339) (openAt E LogDir.fresh start) ops) := by
  refine Run.invariant (step E rfc3339) (I := fun l => ∃ written, LogOp.Sound E written l) ?_
    ⟨[], sound_openAt_fresh E start⟩
    (hrot.and_forall _ fun op hop => And.intro (hops op hop) (halone op hop))
  rintro l op ⟨written, h⟩ ⟨⟨hplain, halone⟩, hrot⟩
  cases op with
  | log op => exact LogOp.sound_step E h hplain.2 hrot
  | foreign f => exact absurd trivial halone

end SharedOp

/-- After a run of the three writers that sets no file aside, the file verifies exactly when the
other two wrote nothing. -/
theorem verify_shared_iff {ops : List (SharedOp Time)} {start now : Nat}
    (hops : ∀ op ∈ ops, op.Plain)
    (hrot : Run.Along (SharedOp.step E rfc3339) (fun l op => ¬ op.Rotates l)
      (openAt E LogDir.fresh start) (ops ++ [.log (.verify now)])) :
    (verify E now (Run.after (SharedOp.step E rfc3339) (openAt E LogDir.fresh start)
        ops)).1.valid = true ↔ ∀ op ∈ ops, ¬ op.IsForeign := by
  obtain ⟨hrun, hlast, -⟩ := (Run.along_append _ _ _ _ _).mp hrot
  constructor
  · intro hvalid op hop hforeign
    have hspoiled := SharedOp.spoiled_along E rfc3339 (l := openAt E LogDir.fresh start)
      ⟨[], rfl, fun _ hl => nomatch hl⟩ hops hrun (Or.inr ⟨op, hop, hforeign⟩)
    refine Spoiled.not_valid E ?_ hvalid
    show Spoiled E (flushInner E now _).dir.log
    rw [log_flushInner E hlast]
    exact hspoiled.append E (lined_fileOf E _)
  · intro halone
    obtain ⟨written, h⟩ := SharedOp.sound_along E rfc3339 hops hrun halone
    have hflush := LogOp.sound_flush E h hlast now
    exact hflush.holds.valid E h.finite hflush.tip

/-! ## A threshold that was adjusted -/

/-- `to_rfc3339` on the times of the sample. -/
def sampleRfc3339 (t : { s : String // Json.escapedLen s ≤ 40 }) : String :=
  String.ofList t.val.toList.dropLast ++ "+00:00"

/-- The user wants to be asked about deletions. -/
def askAboutDeletions : CalibrationEvent where
  timestamp := sampleRfc3339 Codecs.midnight
  actionClass := .fileDelete
  feedback := .alwaysAskForThis
  oldThreshold := 0.4
  newThreshold := 0.9

/-- An entry goes to the file, then a line of another component. -/
def entryThen (a : Appended Time) (f : ForeignLine Time) : List (SharedOp Time) :=
  [.log (.append a 0 0), .log (.flush 0), .foreign f]

theorem pending_entryThen (a : Appended Time) (f : ForeignLine Time) :
    (Run.after (SharedOp.step E rfc3339) (openAt E LogDir.fresh 0) (entryThen a f)).pending
      = [] := by
  rw [entryThen, Run.after_cons, Run.after_cons, Run.after_cons, Run.after_nil]
  exact pending_flushInner E 0 _

/-- Nothing is set aside: the file is empty at the one flush that writes. -/
theorem small_entryThen (a : Appended Time) (f : ForeignLine Time) :
    Run.Along (SharedOp.step E rfc3339) (fun l op => ¬ op.Rotates l) (openAt E LogDir.fresh 0)
      (entryThen a f ++ [.log (.verify 0)]) := by
  refine ⟨fun hr => Nat.not_lt_zero _ hr.2, fun hr => Nat.not_lt_zero _ hr.2, id, ?_, trivial⟩
  intro hr
  exact hr.1 (pending_entryThen E rfc3339 a f)

/-- The line is one of the calibration. -/
def adjusted : List (SharedOp { s : String // Json.escapedLen s ≤ 40 }) :=
  entryThen (openFile none) (.calibration askAboutDeletions)

theorem plain_adjusted : ∀ op ∈ adjusted, op.Plain := by
  intro op hop
  simp only [adjusted, entryThen, List.mem_cons, List.not_mem_nil, or_false] at hop
  rcases hop with rfl | rfl | rfl
  · exact ⟨trivial, fun _ hx => nomatch hx⟩
  · exact ⟨trivial, trivial⟩
  · trivial

theorem verify_shared_iff_adjusted :
    (verify rotatedEnv 0 (Run.after (SharedOp.step rotatedEnv sampleRfc3339)
        (openAt rotatedEnv LogDir.fresh 0) adjusted)).1.valid = true ↔
      ∀ op ∈ adjusted, ¬ op.IsForeign :=
  verify_shared_iff rotatedEnv sampleRfc3339 plain_adjusted
    (small_entryThen rotatedEnv sampleRfc3339 _ _)

/-- The line of the calibration is there, and is no entry. -/
theorem not_verify_adjusted : ¬ ∀ ops : List (SharedOp { s : String // Json.escapedLen s ≤ 40 }),
    (∀ op ∈ ops, op.Plain) →
      (verify rotatedEnv 0 (Run.after (SharedOp.step rotatedEnv sampleRfc3339)
        (openAt rotatedEnv LogDir.fresh 0) ops)).1.valid = true := by
  intro h
  obtain ⟨hrun, -⟩ := (Run.along_append _ _ _ _ _).mp
    (small_entryThen rotatedEnv sampleRfc3339 (openFile none) (.calibration askAboutDeletions))
  have hspoiled := SharedOp.spoiled_along rotatedEnv sampleRfc3339
    (l := openAt rotatedEnv LogDir.fresh 0) ⟨[], rfl, fun _ hl => nomatch hl⟩ plain_adjusted hrun
    (Or.inr ⟨_, List.mem_of_getLast? rfl, trivial⟩)
  have hvalid := h adjusted plain_adjusted
  rw [adjusted,
    verify_of_pending_nil rotatedEnv (pending_entryThen rotatedEnv sampleRfc3339 _ _)] at hvalid
  exact hspoiled.not_valid rotatedEnv hvalid

end Hal

/-
# `Cognos.Hal.AutonomyController` — how much is executed without asking

`autonomy_controller.rs`: at its level an agent may execute an action without asking, and a
budget counts what it did in a period.  Deciding and counting are two calls, a period ends
when its owner says so, and the length of a period is read by nobody.

    exhausted_of_autonomous   the highest level looks at the budget, the one below does not
    capped_of_roomy           no period has more actions than its budget, when each decision
                              leaves room for those decided on before it
-/
import Mathlib
import Cognos.Hal.Calibration

namespace Hal.Autonomy

abbrev AgentId := String

/-! ## Levels -/

/-- The four levels of autonomy an agent may be granted. -/
inductive AutonomyLevel
  | supervised
  | advisory
  | semiAutonomous
  | autonomous
  deriving DecidableEq, Repr, Inhabited

/-- Rank used for escalation/de-escalation comparisons. -/
def AutonomyLevel.rank : AutonomyLevel → Nat
  | .supervised => 0
  | .advisory => 1
  | .semiAutonomous => 2
  | .autonomous => 3

/-! ## Budget -/

/-- Caps how many auto-executed actions an agent may take per period. -/
structure ActionBudget where
  maxPerPeriod : UInt32 := 100
  current : UInt32 := 0
  periodSecs : UInt64 := 3600

namespace ActionBudget

def exhausted (b : ActionBudget) : Bool := decide (b.maxPerPeriod ≤ b.current)

/-- Consume one unit of budget; `false` if exhausted. -/
def consume (b : ActionBudget) : ActionBudget × Bool :=
  if b.exhausted then (b, false) else ({ b with current := b.current + 1 }, true)

def resetPeriod (b : ActionBudget) : ActionBudget := { b with current := 0 }

/-- A budget that is exhausted stays as it is, and one that is not has one unit less. -/
theorem consume_cases (b : ActionBudget) :
    (b.maxPerPeriod.toNat ≤ b.current.toNat ∧ b.consume.1 = b) ∨
      (b.current.toNat < b.maxPerPeriod.toNat ∧ b.consume.1.maxPerPeriod = b.maxPerPeriod ∧
        b.consume.1.current.toNat = b.current.toNat + 1) := by
  by_cases h : b.maxPerPeriod ≤ b.current
  · left
    refine ⟨UInt32.le_iff_toNat_le.mp h, ?_⟩
    rw [consume, if_pos (show b.exhausted = true from decide_eq_true h)]
  · right
    have hlt : b.current.toNat < b.maxPerPeriod.toNat :=
      Nat.lt_of_not_le fun hle => h (UInt32.le_iff_toNat_le.mpr hle)
    have hmax := b.maxPerPeriod.toNat_lt
    rw [consume, if_neg (show ¬ b.exhausted = true from fun he => h (of_decide_eq_true he))]
    refine ⟨hlt, rfl, ?_⟩
    show (b.current + 1).toNat = _
    rw [UInt32.toNat_add]
    exact Nat.mod_eq_of_lt (by show b.current.toNat + 1 < 2 ^ 32; omega)

end ActionBudget

/-! ## The controller -/

/-- Errors returned by the controller; only the first one is ever made. -/
inductive EscalationError
  | skipsLevels (source target : AutonomyLevel)
  | insufficientReputation (reputation threshold : Float32) (target : AutonomyLevel)
  | budgetExhausted (current max : UInt32)

/-- An action for autonomy decisions. -/
structure ActionRequest where
  agent : AgentId
  actionType : String
  riskScore : Float32
  onBlockList : Bool
  deriving DecidableEq

structure AutonomyController where
  level : AutonomyLevel := .supervised
  budget : ActionBudget := {}
  /-- Levels of single agents; nothing puts one in. -/
  perAgent : AgentId → Option AutonomyLevel := fun _ => none
  reputation : AgentId → Option Float32 := fun _ => none

namespace AutonomyController

/-- `new`. -/
def new : AutonomyController := {}

def levelFor (ctl : AutonomyController) (agent : AgentId) : AutonomyLevel :=
  (ctl.perAgent agent).getD ctl.level

/-- `escalate`: one step at a time. -/
def escalate (ctl : AutonomyController) (target : AutonomyLevel) :
    Except EscalationError AutonomyController :=
  if target.rank ≠ ctl.level.rank + 1 then .error (.skipsLevels ctl.level target)
  else .ok { ctl with level := target }

def deescalate (ctl : AutonomyController) (target : AutonomyLevel) : AutonomyController :=
  if target.rank < ctl.level.rank then { ctl with level := target } else ctl

def revertToSupervised (ctl : AutonomyController) : AutonomyController := ctl.deescalate .supervised

/-- Whether the action may be executed without asking; consumes no budget. -/
def canAutoExecute (ctl : AutonomyController) (action : ActionRequest) : Bool :=
  if action.onBlockList then false
  else
    match ctl.levelFor action.agent with
    | .supervised => false
    | .advisory => false
    | .semiAutonomous => decide (action.riskScore < 0.3)
    | .autonomous => decide (action.riskScore < 0.6) && !ctl.budget.exhausted

def consumeBudget (ctl : AutonomyController) : AutonomyController × Bool :=
  ({ ctl with budget := ctl.budget.consume.1 }, ctl.budget.consume.2)

def setReputation (ctl : AutonomyController) (agent : AgentId) (score : Float32) :
    AutonomyController :=
  let score := Threshold.clamp score 0.0 1.0
  { ctl with reputation := Function.update ctl.reputation agent (some score) }

/-- 0.5 = neutral if unknown. -/
def reputationOf (ctl : AutonomyController) (agent : AgentId) : Float32 :=
  (ctl.reputation agent).getD 0.5

/-- The highest level looks at the budget. -/
theorem exhausted_of_autonomous {ctl : AutonomyController} {action : ActionRequest}
    (hlevel : ctl.levelFor action.agent = .autonomous) (h : ctl.canAutoExecute action = true) :
    ctl.budget.current.toNat < ctl.budget.maxPerPeriod.toNat := by
  unfold canAutoExecute at h
  rw [hlevel] at h
  split at h
  · cases h
  · have hroom : ctl.budget.exhausted = false := by
      rw [Bool.and_eq_true, Bool.not_eq_true'] at h
      exact h.2
    exact Nat.lt_of_not_le fun hle =>
      of_decide_eq_false hroom (UInt32.le_iff_toNat_le.mpr hle)

/-- The level below it does not. -/
theorem canAutoExecute_semiAutonomous {ctl : AutonomyController} {action : ActionRequest}
    (hlevel : ctl.levelFor action.agent = .semiAutonomous) (hblock : action.onBlockList = false)
    (hrisk : action.riskScore < 0.3) (budget : ActionBudget) :
    { ctl with budget }.canAutoExecute action = true := by
  unfold canAutoExecute
  rw [hblock]
  show (match ctl.levelFor action.agent with
    | .supervised => false
    | .advisory => false
    | .semiAutonomous => decide (action.riskScore < 0.3)
    | .autonomous => decide (action.riskScore < 0.6) && !budget.exhausted) = true
  rw [hlevel]
  exact decide_eq_true hrisk

end AutonomyController

/-! ## Runs -/

/-- A controller and what was done with its answers. -/
structure Session where
  controller : AutonomyController
  /-- Allowed and not yet executed. -/
  approved : List ActionRequest
  /-- Executed and not yet consumed from the budget. -/
  owed : Nat
  /-- Executed without asking since the period began. -/
  executed : Nat

inductive Act
  | check (action : ActionRequest)
  /-- An action that was allowed is executed. -/
  | execute (action : ActionRequest)
  /-- An action that was allowed is given up. -/
  | withdraw (action : ActionRequest)
  | consume
  | resetPeriod
  /-- Time goes by. -/
  | tick (secs : UInt64)
  | escalate (target : AutonomyLevel)
  | deescalate (target : AutonomyLevel)
  | revert
  | setReputation (agent : AgentId) (score : Float32)

namespace Session

/-- A new controller whose budget was set through `budget_mut`. -/
def start (maxPerPeriod : UInt32) (periodSecs : UInt64) : Session where
  controller := { AutonomyController.new with budget := { maxPerPeriod, periodSecs } }
  approved := []
  owed := 0
  executed := 0

def check (s : Session) (action : ActionRequest) : Session :=
  if s.controller.canAutoExecute action then { s with approved := action :: s.approved } else s

def execute (s : Session) (action : ActionRequest) : Session :=
  if action ∈ s.approved then
    { s with
      approved := s.approved.erase action
      owed := s.owed + 1
      executed := s.executed + 1 }
  else s

def consume (s : Session) : Session :=
  { s with controller := s.controller.consumeBudget.1, owed := s.owed - 1 }

/-- `budget_mut().reset_period()`. -/
def resetPeriod (s : Session) : Session :=
  { s with
    controller := { s.controller with budget := s.controller.budget.resetPeriod }
    executed := 0 }

def escalate (s : Session) (target : AutonomyLevel) : Session :=
  match s.controller.escalate target with
  | .ok controller => { s with controller }
  | .error _ => s

def step (s : Session) : Act → Session
  | .check action => s.check action
  | .execute action => s.execute action
  | .withdraw action => { s with approved := s.approved.erase action }
  | .consume => s.consume
  | .resetPeriod => s.resetPeriod
  | .tick _ => s
  | .escalate target => s.escalate target
  | .deescalate target => { s with controller := s.controller.deescalate target }
  | .revert => { s with controller := s.controller.revertToSupervised }
  | .setReputation agent score =>
      { s with controller := s.controller.setReputation agent score }

/-- No more was executed without asking than the budget of the period. -/
def Capped (s : Session) : Prop := s.executed ≤ s.controller.budget.maxPerPeriod.toNat

/-- When an action is allowed, the budget has room for it beside those that were allowed before
and are not consumed yet. -/
def Roomy (s : Session) : Act → Prop
  | .check action => s.controller.canAutoExecute action = true →
      s.controller.budget.current.toNat + s.owed + s.approved.length <
        s.controller.budget.maxPerPeriod.toNat
  | _ => True

/-- What the budget accounts for. -/
structure Accounted (s : Session) : Prop where
  capped : s.executed + s.approved.length ≤ s.controller.budget.maxPerPeriod.toNat
  counted : s.executed ≤ s.controller.budget.current.toNat + s.owed

namespace Accounted

variable {s : Session} (h : s.Accounted)

include h

/-- Levels and reputations have nothing to do with it. -/
theorem of_budget {controller : AutonomyController}
    (hbudget : controller.budget = s.controller.budget) : { s with controller }.Accounted := by
  constructor
  · rw [hbudget]
    exact h.capped
  · rw [hbudget]
    exact h.counted

theorem check {action : ActionRequest} (hroom : s.Roomy (.check action)) :
    (s.check action).Accounted := by
  unfold Session.check
  split
  · next hallowed =>
      have hlt := hroom hallowed
      have hcounted := h.counted
      refine ⟨?_, hcounted⟩
      show s.executed + (s.approved.length + 1) ≤ s.controller.budget.maxPerPeriod.toNat
      omega
  · exact h

theorem execute (action : ActionRequest) : (s.execute action).Accounted := by
  obtain ⟨hcapped, hcounted⟩ := h
  unfold Session.execute
  split
  · next hmem =>
      have hlen := List.length_erase_of_mem hmem
      have hpos := List.length_pos_of_mem hmem
      constructor
      · show s.executed + 1 + (s.approved.erase action).length ≤
          s.controller.budget.maxPerPeriod.toNat
        omega
      · show s.executed + 1 ≤ s.controller.budget.current.toNat + (s.owed + 1)
        omega
  · exact ⟨hcapped, hcounted⟩

theorem withdraw (action : ActionRequest) :
    { s with approved := s.approved.erase action }.Accounted := by
  have hlen := (List.erase_sublist (a := action) (l := s.approved)).length_le
  refine ⟨?_, h.counted⟩
  have hcapped := h.capped
  show s.executed + (s.approved.erase action).length ≤ s.controller.budget.maxPerPeriod.toNat
  omega

theorem consume : s.consume.Accounted := by
  obtain ⟨hcapped, hcounted⟩ := h
  rcases s.controller.budget.consume_cases with ⟨hfull, hsame⟩ | ⟨hroom, hmax, hnext⟩
  · constructor
    · show _ ≤ s.controller.budget.consume.1.maxPerPeriod.toNat
      rw [hsame]
      exact hcapped
    · -- the budget is used up, and no more was executed than it is
      show s.executed ≤ s.controller.budget.consume.1.current.toNat + (s.owed - 1)
      rw [hsame]
      omega
  · constructor
    · show _ ≤ s.controller.budget.consume.1.maxPerPeriod.toNat
      rw [hmax]
      exact hcapped
    · show s.executed ≤ s.controller.budget.consume.1.current.toNat + (s.owed - 1)
      rw [hnext]
      omega

theorem resetPeriod : s.resetPeriod.Accounted := by
  have hcapped := h.capped
  refine ⟨?_, Nat.zero_le _⟩
  show 0 + s.approved.length ≤ s.controller.budget.maxPerPeriod.toNat
  omega

theorem escalate (target : AutonomyLevel) : (s.escalate target).Accounted := by
  unfold Session.escalate AutonomyController.escalate
  split
  · next heq =>
      split at heq
      · cases heq
      · obtain rfl := Except.ok.inj heq
        exact h.of_budget rfl
  · exact h

theorem deescalate (target : AutonomyLevel) :
    { s with controller := s.controller.deescalate target }.Accounted := by
  refine h.of_budget ?_
  unfold AutonomyController.deescalate
  split
  · rfl
  · rfl

theorem step {act : Act} (hroom : s.Roomy act) : (s.step act).Accounted := by
  cases act with
  | check action => exact h.check hroom
  | execute action => exact h.execute action
  | withdraw action => exact h.withdraw action
  | consume => exact h.consume
  | resetPeriod => exact h.resetPeriod
  | tick secs => exact h
  | escalate target => exact h.escalate target
  | deescalate target => exact h.deescalate target
  | revert => exact h.deescalate .supervised
  | setReputation agent score => exact h.of_budget rfl

end Accounted

theorem accounted_start (maxPerPeriod : UInt32) (periodSecs : UInt64) :
    (start maxPerPeriod periodSecs).Accounted := ⟨Nat.zero_le _, Nat.zero_le _⟩

/-- Whatever is decided, executed, consumed and reset in whatever order: when each decision
leaves room for those that are under way, no period ever has more actions than its budget. -/
theorem capped_of_roomy (maxPerPeriod : UInt32) (periodSecs : UInt64) (acts : List Act)
    (h : Run.Along step Roomy (start maxPerPeriod periodSecs) acts) :
    Run.Throughout step Capped (start maxPerPeriod periodSecs) acts := by
  rintro past ⟨rest, rfl⟩
  rw [Run.along_append] at h
  have haccounted : (Run.after step (start maxPerPeriod periodSecs) past).Accounted :=
    Run.invariant step (fun _ _ hs hact => hs.step hact)
      (accounted_start maxPerPeriod periodSecs) h.1
  exact (Nat.le_add_right _ _).trans haccounted.capped

end Session

/-! ## The two levels -/

/-- An action of little risk. -/
def openApp : ActionRequest :=
  { agent := "coding", actionType := "open_app", riskScore := 0.1, onBlockList := false }

/-- Decided on, executed, consumed. -/
def round : List Act := [.check openApp, .execute openApp, .consume]

/-- On the highest level the second action of a budget of one is not allowed. -/
theorem capped_of_roomy_autonomous :
    Run.Throughout Session.step Session.Capped (Session.start 1 3600)
      ([.escalate .advisory, .escalate .semiAutonomous, .escalate .autonomous] ++ round ++ round) :=
  Session.capped_of_roomy 1 3600 _ (by
    refine ⟨trivial, trivial, trivial, ?_, trivial, trivial, ?_, trivial, trivial, trivial⟩
    · intro _
      decide +kernel
    · intro h
      exact absurd h (by decide +kernel))

/-- One level below it is: two actions in a period of one. -/
theorem not_capped :
    ¬ Run.Throughout Session.step Session.Capped (Session.start 1 3600)
      ([.escalate .advisory, .escalate .semiAutonomous] ++ round ++ round) := by
  intro h
  have hlast := h _ List.prefix_rfl
  have hcount : ¬ (Run.after Session.step (Session.start 1 3600)
      ([.escalate .advisory, .escalate .semiAutonomous] ++ round ++ round)).executed ≤ 1 := by
    decide +kernel
  exact hcount hlast

end Hal.Autonomy

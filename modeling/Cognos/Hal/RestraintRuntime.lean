/-
# `Cognos.Hal.RestraintRuntime` — the restraint model at run time

The runtime keeps a gate for every action key, where a user's no is recorded, and the table of
accepted domains.  `evaluate` asks the threshold and the restraint model; it looks at no gate.

    isDisabled_iff     a gate says what the last disable or enable of its key said
    evaluate_allow     the tests of the model are all that `evaluate` makes
    staysDisabled_iff  when a disabled prediction is kept back
-/
import Cognos.Hal.RestraintModel
import Cognos.Lib.Run

namespace Hal

/-! ## Gates -/

inductive RestraintDecision
  | allow
  | suppress
  | askUser
  deriving DecidableEq, Repr

/-- Per-action gate state. -/
structure GateState where
  allowCount : UInt64
  suppressCount : UInt64
  askCount : UInt64
  userDisabled : Bool
  deriving DecidableEq

/-- `GateState::default()`. -/
def GateState.default : GateState :=
  { allowCount := 0, suppressCount := 0, askCount := 0, userDisabled := false }

/-- A prediction with the key of its gate. -/
structure Prediction where
  inner : ContextPrediction
  actionKey : String

def Prediction.confidence (p : Prediction) : Float32 := p.inner.confidence

structure RestraintRuntime where
  gates : AList fun _ : String => GateState
  acceptance : DomainAcceptance

namespace RestraintRuntime

def new : RestraintRuntime := { gates := ∅, acceptance := .empty }

/-- `RestraintRuntime::evaluate`. -/
def evaluate (r : RestraintRuntime) (prediction : Prediction) : RestraintDecision :=
  if prediction.confidence < confidenceThreshold then .suppress
  else
    match shouldPreload prediction.inner r.acceptance with
    | .preload => .allow
    | .holdBack _ => .suppress

/-- `entry(action_key).or_default()`. -/
def gate (r : RestraintRuntime) (actionKey : String) : GateState :=
  (r.gates.lookup actionKey).getD .default

def setGate (r : RestraintRuntime) (actionKey : String) (g : GateState) : RestraintRuntime :=
  { r with gates := r.gates.insert actionKey g }

/-- After `AskUser`, a no. -/
def disableAction (r : RestraintRuntime) (actionKey : String) : RestraintRuntime :=
  r.setGate actionKey { r.gate actionKey with userDisabled := true }

/-- After `AskUser`, a yes. -/
def enableAction (r : RestraintRuntime) (actionKey : String) : RestraintRuntime :=
  let g := r.gate actionKey
  r.setGate actionKey { g with userDisabled := false, allowCount := g.allowCount + 1 }

def recordAcceptance (r : RestraintRuntime) (domain : String) : RestraintRuntime :=
  { r with acceptance := r.acceptance.recordAcceptance domain }

def gateState (r : RestraintRuntime) (actionKey : String) : Option GateState :=
  r.gates.lookup actionKey

/-- The user has disabled the action. -/
def isDisabled (r : RestraintRuntime) (actionKey : String) : Bool :=
  (r.gate actionKey).userDisabled

/-! ## Runs -/

/-- An operation; through `acceptance_mut` the caller may do anything to the table. -/
inductive Op
  | evaluate (prediction : Prediction)
  | disable (actionKey : String)
  | enable (actionKey : String)
  | recordAcceptance (domain : String)
  | acceptanceMut (change : DomainAcceptance → DomainAcceptance)

def step (r : RestraintRuntime) : Op → RestraintRuntime
  | .evaluate _ => r
  | .disable actionKey => r.disableAction actionKey
  | .enable actionKey => r.enableAction actionKey
  | .recordAcceptance domain => r.recordAcceptance domain
  | .acceptanceMut change => { r with acceptance := change r.acceptance }

/-- The runtime after the operations. -/
def afterOps (ops : List Op) : RestraintRuntime := Run.after step new ops

/-- `disable_action(k)` was called, and `enable_action(k)` not since. -/
def Disabled (k : String) (ops : List Op) : Prop :=
  Run.SwitchedOn (· = .disable k) (· = .enable k) ops

theorem isDisabled_setGate (r : RestraintRuntime) (key k : String) (g : GateState) :
    (r.setGate key g).isDisabled k = if k = key then g.userDisabled else r.isDisabled k := by
  unfold isDisabled gate setGate
  split
  · next h => rw [h, AList.lookup_insert, Option.getD_some]
  · next h => rw [AList.lookup_insert_ne h]

theorem isDisabled_step (r : RestraintRuntime) (op : Op) (k : String) :
    (r.step op).isDisabled k = true ↔
      op = .disable k ∨ (r.isDisabled k = true ∧ ¬ op = .enable k) := by
  cases op with
  | disable key =>
      rw [step, disableAction, isDisabled_setGate]
      split
      · next h => exact iff_of_true rfl (Or.inl (by rw [h]))
      · next h =>
          have hne : Op.disable key ≠ .disable k := fun he => h (Op.disable.inj he).symm
          rw [or_iff_right hne]
          exact (and_iff_left Op.noConfusion).symm
  | enable key =>
      rw [step, enableAction, isDisabled_setGate]
      split
      · next h =>
          refine iff_of_false Bool.false_ne_true ?_
          rintro (he | ⟨-, he⟩)
          · cases he
          · exact he (by rw [h])
      · next h =>
          have hne : ¬ Op.enable key = .enable k := fun he => h (Op.enable.inj he).symm
          rw [or_iff_right (by exact Op.noConfusion)]
          exact (and_iff_left hne).symm
  | _ =>
      rw [or_iff_right (by exact Op.noConfusion)]
      exact (and_iff_left Op.noConfusion).symm

/-- The gates keep what the user said last. -/
theorem isDisabled_iff (ops : List Op) (k : String) :
    (afterOps ops).isDisabled k = true ↔ Disabled k ops := by
  have hnew : new.isDisabled k ≠ true := Bool.false_ne_true
  unfold afterOps Disabled
  rw [Run.switched_iff step (I := fun r => r.isDisabled k = true)
    fun r op => isDisabled_step r op k]
  exact or_iff_left fun h => hnew h.1

/-! ## A no that stays -/

/-- The prediction passes every test of the restraint model: it is certain enough, its domain
is not intimate, none of its paths is sensitive, the hour fits, its action reads no content,
and its domain is unlocked. -/
def PassesModel (p : ContextPrediction) (acceptance : DomainAcceptance) : Prop :=
  ¬ p.confidence < confidenceThreshold ∧ p.domain ∉ highIntimacyDomains ∧
    ¬ SensitivePaths p.filePaths ∧
    ¬ (isLateNight p.timeOfDay = true ∧ p.domain ∉ nightOkDomains) ∧
    readsContent p.predictedAction = false ∧ p.domain ∉ acceptance.locked ∧
    acceptanceThreshold ≤ acceptance.acceptanceCount p.domain

/-- The tests of the model are all that `evaluate` makes. -/
theorem evaluate_allow {r : RestraintRuntime} {prediction : Prediction} :
    r.evaluate prediction = .allow ↔ PassesModel prediction.inner r.acceptance := by
  have hmodel : shouldPreload prediction.inner r.acceptance = .preload ↔
      PassesModel prediction.inner r.acceptance := by
    rw [shouldPreload_eq_preload, DomainAcceptance.isUnlocked_iff]
    exact Iff.rfl
  rw [← hmodel]
  unfold evaluate
  split
  · next hlow =>
      refine iff_of_false RestraintDecision.noConfusion fun h => ?_
      exact (hmodel.mp h).1 hlow
  · cases shouldPreload prediction.inner r.acceptance with
    | preload => exact iff_of_true rfl rfl
    | holdBack reason =>
        exact iff_of_false RestraintDecision.noConfusion PreloadDecision.noConfusion

/-- A disabled prediction is never allowed, until it is enabled again. -/
def StaysDisabled (ops : List Op) : Prop :=
  ∀ past prediction rest, ops = past ++ .evaluate prediction :: rest →
    Disabled prediction.actionKey past → (afterOps past).evaluate prediction ≠ .allow

/-- Evaluated with its gate disabled, the prediction fails a test of the model. -/
def FailsWhenDisabled (r : RestraintRuntime) : Op → Prop
  | .evaluate prediction =>
      r.isDisabled prediction.actionKey = true → ¬ PassesModel prediction.inner r.acceptance
  | _ => True

/-- A no stays exactly in the runs where the model keeps each disabled prediction back. -/
theorem staysDisabled_iff (ops : List Op) :
    StaysDisabled ops ↔ Run.Along step FailsWhenDisabled new ops := by
  rw [Run.along_iff_split]
  constructor
  · intro h past op rest hops
    cases op with
    | evaluate prediction =>
        intro hdisabled hpasses
        refine h past prediction rest hops ((isDisabled_iff past _).mp hdisabled) ?_
        exact evaluate_allow.mpr hpasses
    | _ => trivial
  · intro h past prediction rest hops hdisabled hallow
    refine h past (.evaluate prediction) rest hops ((isDisabled_iff past _).mpr hdisabled) ?_
    exact evaluate_allow.mp hallow

/-! ## A no that is not heard -/

def openWorkspace : Prediction where
  inner :=
    { predictedAction := "open_workspace", confidence := 0.92, domain := "coding",
      filePaths := ["~/projects/motor.py"], triggerSignal := "9am pattern", timeOfDay := 9 }
  actionKey := "open_workspace"

/-- Three predictions are accepted, then the user says no. -/
def afterNo : List Op :=
  List.replicate 3 (.recordAcceptance "coding") ++ [.disable "open_workspace"]

/-- The next one is shown all the same. -/
theorem not_staysDisabled_afterNo : ¬ StaysDisabled (afterNo ++ [.evaluate openWorkspace]) := by
  intro h
  refine h afterNo openWorkspace [] rfl ?_ (by decide)
  exact (isDisabled_iff afterNo _).mp (by decide)

end RestraintRuntime

end Hal

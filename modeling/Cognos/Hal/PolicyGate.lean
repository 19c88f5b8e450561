/-
# `Cognos.Hal.PolicyGate` — the gRPC gate

`PolicyHalGate::evaluate` of the daemon: the validator classifies the path and the
operation, the scorer grades the action on the two flags that leaves, and the band is
turned into a wire status.  A fresh grant token is the only thing the gate takes from
outside, and it is a parameter.

`evaluate_status` says what all of this comes to.
-/
import Cognos.Ipc.Wire
import Cognos.Hal.RiskScorer
import Cognos.Hal.ActionValidator

namespace Hal

open Ipc (HalGateRequest HalGateResponse CapabilityViolation)

/-! ## The gate -/

/-- True when the op names a delete/unlink. -/
def isDeleteOp (op : String) : Bool :=
  let lower := Text.toLowercase op
  Text.contains lower "delete" || Text.contains lower "unlink" || lower == "rm" ||
    Text.startsWith lower "rm " || Text.contains lower "remove"

/-- A benign context that carries the path and the operation. -/
def neutralContext (op path : String) : HALContext :=
  { targetResource := path
    requestedAction := op
    severity := .low
    syscallSensitivity := .safe }

def gateViolation (required message path traceId : String) : CapabilityViolation :=
  { required := required
    held := ""
    reason := "scope"
    message := message ++ " (target: " ++ path ++ ")"
    agentId := "agent.hal"
    traceId := traceId }

/-- The action as the gate grades it. -/
def proposal (op path : String) (dangerous isDelete : Bool) : ProposedAction :=
  { actionType := op
    target := path
    agent := "agent.orchestrator"
    irreversibility := if isDelete then .irreversible else .fullyReversible
    scope := if dangerous then .kernelLevel else .singleFileUserHome
    trustContext := .knownTrusted
    timeAnomaly := .normal
    vibeFlag := .none
    userHistory := .routine
    patternMatch := .exactMatch
    isKernelAdjacent := dangerous
    isDelete := isDelete }

/-- The rules the gate asks the validator about. -/
def violations (op path : String) : List String :=
  (ActionValidator.validate (neutralContext op path) 0.0 1.0).violatedRules

/-- The action `evaluate` has scored. -/
def gateProposal (op path : String) : ProposedAction :=
  proposal op path ((violations op path).any (· == "dangerous_path_access")) (isDeleteOp op)

def evaluate (grantToken : String) (req : HalGateRequest) : HalGateResponse :=
  let op := req.op
  let path := req.device
  let destructive := (violations op path).any (· == "destructive_pattern")
  let score := scoreAction (gateProposal op path)
  let deny (message : String) : String × Option CapabilityViolation :=
    ("denied", some (gateViolation req.capability message path req.traceId))
  let (status, violation) :=
    if destructive then deny "destructive command pattern blocked by HAL"
    else match score.level with
      | .silent | .notify => ("granted", none)
      | .confirm =>
          if req.allowApproval then ("approval_required", none)
          else deny "user confirmation required but approval flow disabled"
      | .block => deny score.explanation
  { status := status
    grantToken := if status == "granted" then grantToken else ""
    riskScore := FloatText.widen score.score
    data := []
    violation := violation
    traceId := req.traceId }

/-! ## What the gate decides -/

theorem proposal_level (op path : String) (dangerous isDelete : Bool) :
    (scoreAction (proposal op path dangerous isDelete)).level = flaggedLevel dangerous isDelete :=
  scoreAction_level ⟨rfl, rfl, rfl, rfl, rfl⟩ ⟨rfl, rfl⟩

theorem violations_any_dangerous (op path : String) :
    ((violations op path).any (· == "dangerous_path_access")) =
      ActionValidator.dangerousPath path := by
  rw [Bool.eq_iff_iff, List.any_beq', List.contains_iff_mem]
  exact ActionValidator.dangerous_path_access_iff

theorem violations_any_destructive (op path : String) :
    ((violations op path).any (· == "destructive_pattern")) =
      ActionValidator.destructivePattern op := by
  rw [Bool.eq_iff_iff, List.any_beq', List.contains_iff_mem]
  exact ActionValidator.destructive_pattern_iff

/-- The status of a request, whatever it carries besides its operation and its path. -/
def statusFor (op path : String) (allowApproval : Bool) : String :=
  if ActionValidator.destructivePattern op then "denied"
  else if ActionValidator.dangerousPath path then
    if allowApproval then "approval_required" else "denied"
  else "granted"

theorem evaluate_status (token : String) (req : HalGateRequest) :
    (evaluate token req).status = statusFor req.op req.device req.allowApproval := by
  unfold evaluate gateProposal statusFor
  simp only [violations_any_dangerous, violations_any_destructive, proposal_level, flaggedLevel]
  cases ActionValidator.destructivePattern req.op <;>
    cases ActionValidator.dangerousPath req.device <;>
    cases isDeleteOp req.op <;> cases req.allowApproval <;> rfl

/-- The gate grants exactly what is neither destructive by its operation nor dangerous by its
path as it is spelled. -/
theorem granted_iff (token : String) (req : HalGateRequest) :
    (evaluate token req).status = "granted" ↔
      ActionValidator.destructivePattern req.op = false ∧
        ActionValidator.dangerousPath req.device = false := by
  rw [evaluate_status]
  unfold statusFor
  cases ActionValidator.destructivePattern req.op <;>
    cases ActionValidator.dangerousPath req.device <;> cases req.allowApproval <;> decide

end Hal

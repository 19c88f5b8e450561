/-
# `Cognos.Orchestrator.ApprovalSocket` — the blocking gate on HAL's socket

`approval_socket.rs`, without the socket: how a side effect becomes a gate request and
how the reason of a response is named.
-/
import Cognos.Hal.Gate
import Cognos.Orchestrator.HalGate

namespace Orchestrator

open Hal (GateRequest GateReason)

/-- The gate's word for an operation. -/
def mapGateAction (op : String) : String :=
  let lower := Text.toLowercase op
  if Text.contains lower "delete" || Text.contains lower "unlink" ||
      Text.contains lower "remove" then "delete_file"
  else if Text.contains lower "install" then "install_package"
  else if Text.contains lower "pkg" then "install_package"
  else if Text.contains lower "config" then "modify_config"
  else if Text.contains lower "create" || Text.contains lower "mkdir" then "create_file"
  else if Text.contains lower "move" || Text.contains lower "rename" then "move_file"
  else if Text.contains lower "execute" || Text.contains lower "binary" then "execute_binary"
  else "open_file"

/-- The name an agent goes by at the gate. -/
def gateAgent (sourceAgent : String) : String :=
  (Text.stripPrefix? sourceAgent "agent.").getD sourceAgent

/-- Map an orchestrator side effect to the v0 gate request shape. -/
def sideEffectToGateRequest (fresh : Uuid) (action : SideEffect) (traceId : String) :
    GateRequest :=
  { requestId := fresh
    agent := gateAgent action.sourceAgent
    action := mapGateAction action.op
    target := action.path
    parameters := .obj [("capability", .str action.capability), ("op", .str action.op)]
    isAiGenerated := false
    intentId := Uuid.parse? traceId }

section

variable (fresh : Uuid) (action : SideEffect) (traceId : String)

@[simp] theorem sideEffectToGateRequest_action :
    (sideEffectToGateRequest fresh action traceId).action = mapGateAction action.op := by
  simp only [sideEffectToGateRequest]

@[simp] theorem sideEffectToGateRequest_agent :
    (sideEffectToGateRequest fresh action traceId).agent = gateAgent action.sourceAgent := by
  simp only [sideEffectToGateRequest]

@[simp] theorem sideEffectToGateRequest_target :
    (sideEffectToGateRequest fresh action traceId).target = action.path := by
  simp only [sideEffectToGateRequest]

@[simp] theorem sideEffectToGateRequest_isAiGenerated :
    (sideEffectToGateRequest fresh action traceId).isAiGenerated = false := by
  simp only [sideEffectToGateRequest]

end

def reasonLabel : GateReason → String
  | .autoApproved => "auto_approved"
  | .userApproved => "user_approved"
  | .autoDenied => "auto_denied"
  | .userDenied => "user_denied"
  | .timeoutDeny => "timeout_deny"
  | .halError => "hal_error"

/-- The actions the gate can be asked about. -/
def gateActions : List String :=
  ["delete_file", "install_package", "modify_config", "create_file", "move_file",
    "execute_binary", "open_file"]

theorem mapGateAction_mem (op : String) : mapGateAction op ∈ gateActions := by
  unfold mapGateAction gateActions
  simp only
  split_ifs <;> simp

/-- No operation is taken for an attempt on HAL itself. -/
theorem mapGateAction_ne_modify_hal (op : String) : mapGateAction op ≠ "modify_hal" := by
  intro h
  have hall : ∀ a ∈ gateActions, a ≠ "modify_hal" := by decide
  exact hall _ (mapGateAction_mem op) h

end Orchestrator

/-
# `Cognos.Orchestrator.BlockingGate` — the round trip of the blocking gate

`blocking_gate` of `approval_socket.rs`: one request out, one response back, both in the
frames of the UI socket.  The HAL socket is a function from the bytes that are written to
it to the bytes that come back.
-/
import Cognos.Hal.ApprovalFlow
import Cognos.Ipc.ApprovalUi
import Cognos.Orchestrator.Runtime

namespace Orchestrator

open Hal (GateRequest GateResponse)
open Ipc (UiError writeFrame readFrame maxUiFrameBytes)

variable {Time : Type}

/-- What `blocking_gate` meets outside the process. -/
structure SocketWorld where
  freshId : Uuid
  /-- The HAL socket, or why it cannot be reached. -/
  connect : Except String (List UInt8 → List UInt8)
  /-- The texts of errors that come from the system or from the JSON reader. -/
  foreignText : UiError → String

def SocketWorld.errorText (s : SocketWorld) (e : UiError) : String :=
  e.text?.getD (s.foreignText e)

/-- Synchronous gate round trip. -/
def blockingGate (K : Codecs Time) (s : SocketWorld) (action : SideEffect) (traceId : String) :
    Except String (GateResponse Time) :=
  let request := sideEffectToGateRequest s.freshId action traceId
  match s.connect with
  | .error e => .error e
  | .ok socket =>
      match writeFrame [] request.json.toVec with
      | .error e => .error (s.errorText e)
      | .ok sent =>
          match readFrame (socket sent) with
          | .error e => .error (s.errorText e)
          | .ok (bytes, _) =>
              match (Json.recordFromSlice GateResponse.names bytes).bind (GateResponse.read K) with
              | some response => .ok response
              | none => .error (s.errorText .invalidJson)

/-- The wait of a dispatch, when it ends in time and the task does not fail. -/
def waitOn (K : Codecs Time) (s : SocketWorld) (action : SideEffect) (traceId : String) :
    Wait Time :=
  match blockingGate K s action traceId with
  | .ok response => .answered response
  | .error e => .gateError e

/-! ## The request -/

/-- The bytes of the request for a side effect. -/
def requestSize (action : SideEffect) (traceId : String) : Nat :=
  164 + Json.escapedLen (gateAgent action.sourceAgent) + Json.escapedLen (mapGateAction action.op)
    + Json.escapedLen action.path + Json.escapedLen action.capability + Json.escapedLen action.op
    + (if (Uuid.parse? traceId).isSome then 38 else 4)

theorem size_request (fresh : Uuid) (action : SideEffect) (traceId : String) :
    (sideEffectToGateRequest fresh action traceId).json.size = requestSize action traceId := by
  have hparams : (sideEffectToGateRequest fresh action traceId).parameters.size
      = 25 + Json.escapedLen action.capability + Json.escapedLen action.op := by
    have hkeys : Json.escapedLen "capability" + Json.escapedLen "op" = 12 := by decide
    show (Json.Value.obj [("capability", .str action.capability), ("op", .str action.op)]).size = _
    rw [Json.Value.size_obj (List.cons_ne_nil _ _)]
    simp only [List.map_cons, List.map_nil, List.sum_cons, List.sum_nil, List.length_cons,
      List.length_nil, Json.Value.size_str]
    omega
  have hintent : ((((sideEffectToGateRequest fresh action traceId).intentId).map fun id =>
      Json.Value.str id.text).getD .null).size
      = if (Uuid.parse? traceId).isSome then 38 else 4 := by
    show (((Uuid.parse? traceId).map fun id => Json.Value.str id.text).getD .null).size = _
    cases Uuid.parse? traceId with
    | none => rfl
    | some id => simp [Uuid.escapedLen_text]
  rw [GateRequest.size_json, hparams, hintent]
  simp only [sideEffectToGateRequest_agent, sideEffectToGateRequest_action,
    sideEffectToGateRequest_target, sideEffectToGateRequest_isAiGenerated, Json.Value.size_false,
    requestSize]
  omega

/-- The parameters are two strings, one level deep. -/
theorem admitted_parameters (inRange : Json.NumLit → Bool) (fresh : Uuid) (action : SideEffect)
    (traceId : String) :
    (sideEffectToGateRequest fresh action traceId).parameters.admitted inRange 126
      = some (sideEffectToGateRequest fresh action traceId).parameters := by
  show Json.Value.admitted inRange 126
    (.obj [("capability", .str action.capability), ("op", .str action.op)]) = _
  rw [Json.Value.admitted, if_pos ⟨by simp [Json.Value.depth, Json.fieldDepth],
    by simp [Json.Value.numsAll, Json.fieldNumsAll]⟩]
  simp only [sideEffectToGateRequest]

end Orchestrator

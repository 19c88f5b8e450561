/-
# `Cognos.Ipc.Wire` — gRPC messages and the client

The messages the orchestrator exchanges with HAL and with the intent engine, field by
field as the protocol has them, and the client's two calls.  What the other side answers
is a parameter of each call: a reply for every request, or a failure of the transport.
-/
import Cognos.Lib.Uuid

namespace Ipc

/-! ## HAL gate -/

structure HalGateRequest where
  op : String
  device : String
  data : List UInt8
  capability : String
  riskOverride : Float
  allowApproval : Bool
  traceId : String

structure CapabilityViolation where
  required : String
  held : String
  reason : String
  message : String
  agentId : String
  traceId : String

structure HalGateResponse where
  status : String
  grantToken : String
  riskScore : Float
  data : List UInt8
  violation : Option CapabilityViolation
  traceId : String

/-! ## Intents -/

structure IntentActionNode where
  nodeId : String
  intentId : String
  action : String
  target : String
  confidence : Float
  halPreScore : Float

structure IntentActionEdge where
  fromNode : String
  toNode : String

/-- The parsed graph; the schema it carries along for audit is left out. -/
structure IntentActionGraph where
  nodes : List IntentActionNode
  deps : List IntentActionEdge

/-- What the orchestrator fills in of an intent; the other fields keep their defaults. -/
structure ProtoIntent where
  intentId : String
  utterance : String
  sessionId : String
  traceId : String := ""

/-- What the orchestrator reads of the intent engine's answer. -/
structure IntentResponse where
  status : String
  message : String
  actionGraph : Option IntentActionGraph

/-! ## Client -/

inductive ClientError
  | invalidEndpoint (e : String)
  | transport (e : String)
  | status (e : String)
  | reconnectExhausted (attempts : Nat)

def ClientError.text : ClientError → String
  | .invalidEndpoint e => "invalid endpoint: " ++ e
  | .transport e => "transport: " ++ e
  | .status e => "status: " ++ e
  | .reconnectExhausted n => "reconnect exhausted after " ++ toString n ++ " attempts"

/-- A client that was handed to the orchestrator, connected or not. -/
structure CognosClient where
  connected : Bool

/-- The trace id a call goes out with. -/
def outgoingTrace (fresh : Uuid) (traceId : String) : String :=
  if traceId = "" then fresh.text else traceId

/-- `request_hal_gate`. -/
def CognosClient.requestHalGate (client : CognosClient) (fresh : Uuid)
    (reply : HalGateRequest → Except String HalGateResponse) (req : HalGateRequest) :
    Except ClientError HalGateResponse :=
  if client.connected then
    (reply { req with traceId := outgoingTrace fresh req.traceId }).mapError .status
  else .error (.transport "not connected")

/-- `dispatch_intent`. -/
def CognosClient.dispatchIntent (client : CognosClient) (fresh : Uuid)
    (reply : ProtoIntent → Except String IntentResponse) (intent : ProtoIntent) :
    Except ClientError IntentResponse :=
  if client.connected then
    (reply { intent with traceId := outgoingTrace fresh intent.traceId }).mapError .status
  else .error (.transport "not connected")

end Ipc

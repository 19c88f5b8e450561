/-
# `Cognos.Orchestrator.HalGate` — gating side effects through HAL

`hal_gate.rs`: which capabilities may not be dispatched without a gate, the request
built from a proposed side effect, and the reading of HAL's answer.  Every answer that
is not one of the four statuses is an error, and so is a call that fails.
-/
import Cognos.Ipc.Wire

namespace Orchestrator

open Ipc (HalGateRequest HalGateResponse ClientError CognosClient)

/-- A side-effecting action the orchestrator wants to perform. -/
structure SideEffect where
  op : String
  path : String
  capability : String
  sourceAgent : String

/-- The outcome of a HAL gate evaluation. -/
inductive Decision
  | granted (grantToken : String) (riskScore : Float)
  | approvalRequired (riskScore : Float)
  | denied (reason : String) (riskScore : Float)

inductive GateError
  | rpc (e : ClientError)
  | unknownStatus (status : String)

def GateError.text : GateError → String
  | .rpc e => "HAL gate RPC failed: " ++ e.text
  | .unknownStatus s => "HAL returned an unknown status: " ++ s

/-- The words that mark a capability as one that can change something. -/
def sideEffectMarkers : List String :=
  ["write", "delete", "remove", "execute", "install", "uninstall", "update", "modify", "pkg",
    "spawn", "kill", "mount", "net.send", "hal"]

/-- Which capabilities may cause side effects and therefore must be gated. -/
def isSideEffecting (capability : String) : Bool :=
  Text.containsAny (Text.toLowercase capability) sideEffectMarkers

/-- The request HAL is sent for an action. -/
def gateRequest (action : SideEffect) (traceId : String) : HalGateRequest :=
  { op := action.op
    device := action.path
    data := []
    capability := action.capability
    riskOverride := -1.0
    allowApproval := true
    traceId := traceId }

/-- The reading of HAL's answer. -/
def interpret (response : HalGateResponse) : Except GateError Decision :=
  if response.status = "granted" then .ok (.granted response.grantToken response.riskScore)
  else if response.status = "approval_required" then .ok (.approvalRequired response.riskScore)
  else if response.status = "denied" ∨ response.status = "failed" then
    let reason := ((response.violation.map (·.message)).filter (· ≠ "")).getD
      ("HAL " ++ response.status)
    .ok (.denied reason response.riskScore)
  else .error (.unknownStatus response.status)

/-- Send `action` to HAL through `client` and interpret the response. -/
def gateAction (client : CognosClient) (fresh : Uuid)
    (reply : HalGateRequest → Except String HalGateResponse) (action : SideEffect)
    (traceId : String) : Except GateError Decision :=
  match client.requestHalGate fresh reply (gateRequest action traceId) with
  | .error e => .error (.rpc e)
  | .ok response => interpret response

/-! ## What a decision says about the answer -/

/-- HAL answered the gate request for `action` with `status`. -/
def HalAnswered (client : CognosClient) (fresh : Uuid)
    (reply : HalGateRequest → Except String HalGateResponse) (action : SideEffect)
    (traceId status : String) : Prop :=
  ∃ response, client.requestHalGate fresh reply (gateRequest action traceId) = .ok response ∧
    response.status = status

theorem interpret_cases {response : HalGateResponse} {d : Decision}
    (h : interpret response = .ok d) :
    (response.status = "granted" ∧ d = .granted response.grantToken response.riskScore) ∨
    (response.status = "approval_required" ∧ d = .approvalRequired response.riskScore) ∨
    ((response.status = "denied" ∨ response.status = "failed") ∧
      ∃ reason, d = .denied reason response.riskScore) := by
  unfold interpret at h
  split_ifs at h with hg ha hd
  · cases h; exact .inl ⟨hg, rfl⟩
  · cases h; exact .inr (.inl ⟨ha, rfl⟩)
  · cases h; exact .inr (.inr ⟨hd, _, rfl⟩)

variable {client : CognosClient} {fresh : Uuid}
  {reply : HalGateRequest → Except String HalGateResponse} {action : SideEffect}
  {traceId : String}

theorem gateAction_granted {token : String} {risk : Float}
    (h : gateAction client fresh reply action traceId = .ok (.granted token risk)) :
    HalAnswered client fresh reply action traceId "granted" := by
  unfold gateAction at h
  split at h
  · cases h
  · next response hr =>
      rcases interpret_cases h with ⟨hs, -⟩ | ⟨-, hd⟩ | ⟨-, _, hd⟩
      · exact ⟨response, hr, hs⟩
      · cases hd
      · cases hd

theorem gateAction_approvalRequired {risk : Float}
    (h : gateAction client fresh reply action traceId = .ok (.approvalRequired risk)) :
    HalAnswered client fresh reply action traceId "approval_required" := by
  unfold gateAction at h
  split at h
  · cases h
  · next response hr =>
      rcases interpret_cases h with ⟨-, hd⟩ | ⟨hs, -⟩ | ⟨-, _, hd⟩
      · cases hd
      · exact ⟨response, hr, hs⟩
      · cases hd

end Orchestrator

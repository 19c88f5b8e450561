/-
# `Cognos.AgentIpc.Server` — dispatch

The `dispatch` call of `server.rs`, with the rate limiter of `interceptor.rs`: the rate,
the signature, the nonce and the window, the sender's capabilities, the target.  What
passes them all is published as an event and answered.
-/
import Mathlib
import Cognos.AgentIpc.Auth
import Cognos.AgentIpc.Capability
import Cognos.Lib.Json.Record

namespace AgentIpc

/-! ## The rate limiter -/

structure RateWindow where
  count : UInt32
  windowStart : Nat

structure RateLimiter where
  limits : AList fun _ : String => RateWindow
  maxPerSecond : UInt32

inductive Code
  | unauthenticated
  | permissionDenied
  | notFound
  | resourceExhausted
  deriving DecidableEq, Repr

/-- `tonic::Status`. -/
structure Status where
  code : Code
  message : String
  deriving DecidableEq

namespace RateLimiter

/-- The window of an agent at the instant `now`, this request counted. -/
def window (rl : RateLimiter) (agentId : String) (now : Nat) : RateWindow :=
  let entry := (rl.limits.lookup agentId).getD ⟨0, now⟩
  let entry := if 1000000000 ≤ now - entry.windowStart then ⟨0, now⟩ else entry
  { entry with count := entry.count + 1 }

def check (rl : RateLimiter) (agentId : String) (now : Nat) :
    RateLimiter × Except Status Unit :=
  let entry := rl.window agentId now
  ({ rl with limits := rl.limits.insert agentId entry },
    if rl.maxPerSecond < entry.count then
      .error ⟨.resourceExhausted, "rate limit exceeded for agent " ++ agentId⟩
    else .ok ())

end RateLimiter

/-! ## The service -/

structure AgentEvent where
  eventId : String
  sourceAgent : String
  eventType : String
  payloadJson : String
  timestampUnixMs : Int64
  severity : String

structure AgentResponse where
  success : Bool
  responseId : String
  requestEnvelopeId : String
  respondingAgent : String
  timestampUnixMs : Int64
  resultJson : String
  warnings : List String
  auditEvents : List String

/-- `CognosAgentService`, with the events it has published. -/
structure CognosAgentService where
  capabilityRuntime : CapabilityRuntime
  rateLimiter : RateLimiter
  nonceCache : NonceCache
  published : List AgentEvent

/-- The clocks and random ids `dispatch` reads. -/
structure DispatchReadings extends ClockReadings where
  arrived : Nat
  eventId : Uuid
  eventTime : Int64
  responseId : Uuid
  responseTime : Int64

namespace CognosAgentService

/-- The registry: the one the capability check asks. -/
def registry (s : CognosAgentService) : AgentRegistry := s.capabilityRuntime.registry

/-- A service as `new` makes it. -/
def new (capabilityRuntime : CapabilityRuntime) : CognosAgentService where
  capabilityRuntime := capabilityRuntime
  rateLimiter := ⟨∅, 100⟩
  nonceCache := ∅
  published := []

variable (V : Ed25519) (H : Sha256)

/-- The event of a dispatched envelope. -/
def dispatchedEvent (e : IntentEnvelope) (r : DispatchReadings) : AgentEvent where
  eventId := r.eventId.text
  sourceAgent := "coordinator"
  eventType := "intent_dispatched"
  payloadJson := (Json.record
    [("envelope_id", some (.str e.envelopeId)), ("intent_type", some (.str e.intentType)),
      ("source", some (.str e.sourceAgent)), ("target", some (.str e.targetAgent))]).print
  timestampUnixMs := r.eventTime
  severity := "info"

/-- The answer to a dispatched envelope. -/
def dispatchedResponse (e : IntentEnvelope) (r : DispatchReadings) : AgentResponse where
  success := true
  responseId := r.responseId.text
  requestEnvelopeId := e.envelopeId
  respondingAgent := "coordinator"
  timestampUnixMs := r.responseTime
  resultJson := "\x7b\x7d"
  warnings := []
  auditEvents := []

def dispatch (s : CognosAgentService) (e : IntentEnvelope) (r : DispatchReadings) :
    CognosAgentService × Except Status AgentResponse :=
  let (rateLimiter, rate) := s.rateLimiter.check e.sourceAgent r.arrived
  let s := { s with rateLimiter := rateLimiter }
  match rate with
  | .error status => (s, .error status)
  | .ok () =>
      if !verifyEnvelope V H e then
        (s, .error ⟨.unauthenticated, "invalid envelope signature"⟩)
      else
        let (nonceCache, integrity) := validateIntegrity V H s.nonceCache e r.toClockReadings
        let s := { s with nonceCache := nonceCache }
        match integrity with
        | .error message => (s, .error ⟨.permissionDenied, message⟩)
        | .ok () =>
            match s.capabilityRuntime.validateEnvelope e with
            | .error message => (s, .error ⟨.permissionDenied, message⟩)
            | .ok () =>
                if !s.registry.has e.targetAgent then
                  (s, .error ⟨.notFound, "target agent '" ++ e.targetAgent ++ "' not registered"⟩)
                else
                  ({ s with published := s.published ++ [dispatchedEvent e r] },
                    .ok (dispatchedResponse e r))

/-- The checks of `dispatch` that do not look at the signature. -/
structure Admits (s : CognosAgentService) (e : IntentEnvelope) (r : DispatchReadings) : Prop where
  rate : (s.rateLimiter.check e.sourceAgent r.arrived).2 = .ok ()
  nonce : shortNonce e.nonce = false
  unseen : e.nonce ∉ s.nonceCache
  window : e.verifyTimestamp r.wall maxSkewMs = true
  sender : s.capabilityRuntime.validateEnvelope e = .ok ()
  target : s.registry.has e.targetAgent = true

/-- `dispatch` accepts what passes these checks and verifies under the key it carries. -/
theorem dispatch_ok_iff {s : CognosAgentService} {e : IntentEnvelope} {r : DispatchReadings} :
    (∃ response, (s.dispatch V H e r).2 = .ok response) ↔
      s.Admits e r ∧ verifyEnvelope V H e = true := by
  have hiff : (validateIntegrity V H s.nonceCache e r.toClockReadings).2 = .ok () ↔ _ :=
    validateIntegrity_iff V H
  have hsplit : s.Admits e r ↔ (s.rateLimiter.check e.sourceAgent r.arrived).2 = .ok () ∧
      (shortNonce e.nonce = false ∧ e.nonce ∉ s.nonceCache ∧
        e.verifyTimestamp r.wall maxSkewMs = true) ∧
      s.capabilityRuntime.validateEnvelope e = .ok () ∧ s.registry.has e.targetAgent = true :=
    ⟨fun h => ⟨h.rate, ⟨h.nonce, h.unseen, h.window⟩, h.sender, h.target⟩,
      fun ⟨hr, ⟨hn, hu, hw⟩, hs, ht⟩ => ⟨hr, hn, hu, hw, hs, ht⟩⟩
  rw [hsplit]
  unfold dispatch
  cases hrate : s.rateLimiter.check e.sourceAgent r.arrived with
  | mk rateLimiter rate =>
    cases hint : validateIntegrity V H s.nonceCache e r.toClockReadings with
    | mk nonceCache integrity =>
      rw [hint] at hiff
      cases rate with
      | error status => simp
      | ok _ =>
          by_cases hv : verifyEnvelope V H e = true
          · cases integrity with
            | error message => simp_all
            | ok _ =>
                cases hsend : s.capabilityRuntime.validateEnvelope e with
                | error message => simp_all
                | ok _ =>
                    by_cases ht : s.registry.has e.targetAgent = true
                    · simp_all [registry]
                    · simp_all [registry]
          · simp [hv]

end CognosAgentService

end AgentIpc

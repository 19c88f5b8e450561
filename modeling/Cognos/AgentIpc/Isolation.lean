/-
# `Cognos.AgentIpc.Isolation` — what an isolated agent can still send

`isolate_agent` takes an agent's capabilities away and leaves its registration as it is;
`validate_envelope` asks for the capabilities an envelope names.  So an isolated agent has
nothing left to ask for, and an envelope that asks for nothing, as `build_envelope` makes
them, is judged by the registration alone.  A validation takes the locks one after the
other, and other calls may come in between.

    holds_nothing     an isolated agent holds nothing until it is granted something
    isolated_iff      what still passes
    not_silenced      an envelope that does
-/
import Mathlib
import Cognos.Lib.Run
import Cognos.AgentIpc.Registration

namespace AgentIpc

namespace RegistryCall

/-- The call grants the agent something. -/
def GrantsTo (agentId : String) (call : RegistryCall) : Prop :=
  ∃ capability, call = grant agentId capability

end RegistryCall

namespace CapabilityRuntime

/-! ## Nothing held -/

/-- The agent holds no capability. -/
def HoldsNothing (agentId : String) (rt : CapabilityRuntime) : Prop :=
  ∀ c, rt.hasCapability agentId c = false

theorem holdsNothing_isolateAgent (rt : CapabilityRuntime) (agentId : String) :
    HoldsNothing agentId (rt.isolateAgent agentId) := by
  intro c
  rw [← Bool.not_eq_true]
  intro hheld
  exact ((rt.hasCapability_isolateAgent agentId agentId c).mp hheld).2 rfl

/-- Only a grant to the agent changes that. -/
theorem HoldsNothing.run {agentId : String} {rt : CapabilityRuntime} {call : RegistryCall}
    (h : HoldsNothing agentId rt) (hcall : ¬ call.GrantsTo agentId) :
    HoldsNothing agentId (call.run rt) := by
  intro c
  rw [← Bool.not_eq_true]
  intro hheld
  rcases (RegistryCall.hasCapability_run rt call agentId c).mp hheld with hgrant | ⟨hbefore, -⟩
  · exact hcall ⟨c, hgrant⟩
  · exact Bool.false_ne_true ((h c).symm.trans hbefore)

/-- An isolated agent holds nothing until it is granted something again. -/
theorem HoldsNothing.after {agentId : String} {rt : CapabilityRuntime}
    {calls : List RegistryCall} (h : HoldsNothing agentId rt)
    (hcalls : ∀ call ∈ calls, ¬ call.GrantsTo agentId) :
    HoldsNothing agentId (Run.after RegistryCall.run rt calls) := by
  refine Run.invariant RegistryCall.run (P := fun _ call => ¬ call.GrantsTo agentId)
    (fun _ _ hrt hcall => hrt.run hcall) h ?_
  exact Run.along_of_forall RegistryCall.run fun call hcall _ => hcalls call hcall

/-! ## A validation amid other calls -/

/-- The loop over the requested capabilities, each read under its own lock; `between k` are the
calls that come in before the `k`-th of these readings. -/
def checkRequestedAmid (between : Nat → List RegistryCall) (agentId : String) :
    CapabilityRuntime → Nat → List String → Except String Unit
  | _, _, [] => .ok ()
  | rt, k, requested :: rest =>
      match Capability.fromStr requested with
      | none => .error ("unknown capability " ++ requested)
      | some capability =>
          let rt := Run.after RegistryCall.run rt (between k)
          if rt.hasCapability agentId capability then
            checkRequestedAmid between agentId rt (k + 1) rest
          else .error ("missing capability " ++ requested)

/-- `validate_envelope`, from the reading of the registry on. -/
def validateEnvelopeAmid (between : Nat → List RegistryCall) (rt : CapabilityRuntime)
    (e : IntentEnvelope) : Except String Unit :=
  match rt.registry.lookup e.sourceAgent with
  | none => .error "unknown agent"
  | some agent =>
      if !agent.healthy then .error "agent unhealthy"
      else if agent.trustScore < 0.20 then .error "agent trust score too low"
      else checkRequestedAmid between e.sourceAgent rt 0 e.requestedCapabilities

theorem checkRequestedAmid_nothing (rt : CapabilityRuntime) (agentId : String) (k : Nat)
    (requested : List String) :
    checkRequestedAmid (fun _ => []) agentId rt k requested =
      rt.checkRequested agentId requested := by
  induction requested generalizing k with
  | nil => rfl
  | cons r rs ih =>
      rw [checkRequestedAmid, checkRequested]
      cases Capability.fromStr r with
      | none => rfl
      | some c =>
          dsimp only [Run.after_nil]
          rw [ih]

/-- With no call in between it is the validation of before. -/
theorem validateEnvelopeAmid_nothing (rt : CapabilityRuntime) (e : IntentEnvelope) :
    validateEnvelopeAmid (fun _ => []) rt e = rt.validateEnvelope e := by
  unfold validateEnvelopeAmid validateEnvelope
  cases rt.registry.lookup e.sourceAgent with
  | none => rfl
  | some agent =>
      dsimp only
      rw [checkRequestedAmid_nothing]

/-- Who holds nothing, and is granted nothing meanwhile, passes with nothing only. -/
theorem HoldsNothing.checkRequestedAmid_iff {agentId : String} {rt : CapabilityRuntime}
    {between : Nat → List RegistryCall} {requested : List String} (k : Nat)
    (h : HoldsNothing agentId rt)
    (hbetween : ∀ k, ∀ call ∈ between k, ¬ call.GrantsTo agentId) :
    checkRequestedAmid between agentId rt k requested = .ok () ↔ requested = [] := by
  cases requested with
  | nil => exact iff_of_true rfl rfl
  | cons r rs =>
      refine iff_of_false (fun hok => ?_) (List.cons_ne_nil r rs)
      rw [checkRequestedAmid] at hok
      cases hr : Capability.fromStr r with
      | none =>
          rw [hr] at hok
          cases hok
      | some c =>
          have hmissing := h.after (hbetween k) c
          rw [hr] at hok
          dsimp only at hok
          rw [hmissing, if_neg Bool.false_ne_true] at hok
          cases hok

/-- After an isolation and until a grant, whatever else is called and also while the validation
is under way, an envelope of the agent passes exactly when it asks for no capability and the
agent is registered, healthy and trusted. -/
theorem isolated_iff (rt : CapabilityRuntime) (calls : List RegistryCall)
    (between : Nat → List RegistryCall) (e : IntentEnvelope)
    (hcalls : ∀ call ∈ calls, ¬ call.GrantsTo e.sourceAgent)
    (hbetween : ∀ k, ∀ call ∈ between k, ¬ call.GrantsTo e.sourceAgent) :
    validateEnvelopeAmid between
        (Run.after RegistryCall.run (rt.isolateAgent e.sourceAgent) calls) e = .ok () ↔
      e.requestedCapabilities = [] ∧
        ∃ agent, (Run.after RegistryCall.run (rt.isolateAgent e.sourceAgent) calls).registry.lookup
            e.sourceAgent = some agent ∧ agent.healthy = true ∧ ¬ agent.trustScore < 0.20 := by
  have hnothing := (holdsNothing_isolateAgent rt e.sourceAgent).after hcalls
  unfold validateEnvelopeAmid
  cases (Run.after RegistryCall.run (rt.isolateAgent e.sourceAgent) calls).registry.lookup
      e.sourceAgent with
  | none =>
      refine iff_of_false (fun hok => ?_) fun h => ?_
      · cases hok
      · obtain ⟨-, agent, hagent, -⟩ := h
        cases hagent
  | some agent =>
      simp only [Option.some.injEq, exists_eq_left']
      by_cases hhealthy : agent.healthy = true
      · by_cases htrust : agent.trustScore < 0.20
        · simp [hhealthy, htrust]
        · rw [if_neg (by rw [hhealthy]; exact Bool.false_ne_true), if_neg htrust,
            hnothing.checkRequestedAmid_iff 0 hbetween]
          exact (and_iff_left ⟨hhealthy, htrust⟩).symm
      · simp [hhealthy]

end CapabilityRuntime

/-! ## An envelope of an isolated agent -/

/-- As `build_envelope` leaves the requests: none. -/
def statusEnvelope : IntentEnvelope where
  envelopeId := "7d0a2f64-1df8-4a5d-8a41-6a3f0e6c9b02"
  intentId := "intent-1"
  sourceAgent := "planner"
  targetAgent := "memory"
  capabilityToken := ""
  actionGraphHash := ""
  timestampUnixMs := 1767225600000
  nonce := "8c0b5c1e-4b0e-4f0a-9a3e-2d7c1f6b9e10"
  sessionId := ""
  userId := ""
  intentType := "unknown"
  intentPayloadJson := ""
  riskEstimate := 0.0
  trustScore := 0.0
  requiresHal := false
  requestedCapabilities := []
  audit := none
  signature := none

/-- The registered, healthy and trusted planner is isolated, and its envelope passes. -/
theorem isolated_iff_status :
    CapabilityRuntime.validateEnvelopeAmid (fun _ => [])
        (Run.after RegistryCall.run
          ((afterCalls [.register planner, .grant "planner" .halOverride]).isolateAgent "planner")
          []) statusEnvelope = .ok () := by
  have hnone : ∀ call ∈ ([] : List RegistryCall), ¬ call.GrantsTo "planner" :=
    fun call hcall => absurd hcall List.not_mem_nil
  refine (CapabilityRuntime.isolated_iff
    (afterCalls [.register planner, .grant "planner" .halOverride]) [] (fun _ => [])
    statusEnvelope hnone fun _ => hnone).mpr ⟨rfl, planner, rfl, rfl, ?_⟩
  decide

/-- So an isolated agent is not cut off. -/
theorem not_silenced :
    ¬ ∀ (rt : CapabilityRuntime) (agentId : String) (calls : List RegistryCall)
      (e : IntentEnvelope), (∀ call ∈ calls, ¬ call.GrantsTo agentId) →
        e.sourceAgent = agentId →
          (Run.after RegistryCall.run (rt.isolateAgent agentId) calls).validateEnvelope e ≠
            .ok () := by
  intro hcut
  have hnone : ∀ call ∈ ([] : List RegistryCall), ¬ call.GrantsTo "planner" :=
    fun call hcall => absurd hcall List.not_mem_nil
  refine hcut (afterCalls [.register planner]) "planner" [] statusEnvelope hnone rfl ?_
  refine CapabilityRuntime.validateEnvelope_iff.mpr ⟨planner, rfl, rfl, ?_, ?_⟩
  · decide
  · intro r hr
    cases hr

end AgentIpc

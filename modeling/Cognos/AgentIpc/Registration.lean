/-
# `Cognos.AgentIpc.Registration` — what an agent holds, over a whole run

The registry and the capabilities are two maps, and nothing that happens to the one touches
the other: an agent is registered, unregistered and swept away in the registry, and its
capabilities are granted and revoked in the other map, by name.  So an id holds what was
granted to it and not withdrawn since, whoever was registered under it at the time, and a
registration starts clean only when the id holds nothing that is not withdrawn later on.

    hasCapability_runs         an id holds what was granted and not withdrawn
    capabilityCheck_approved   what the server answers to a capability check
    startsClean_iff            when a registration starts clean
-/
import Mathlib
import Cognos.Lib.Run
import Cognos.AgentIpc.Capability

namespace AgentIpc

/-! ## The registry -/

namespace AgentRegistry

def unregister (reg : AgentRegistry) (agentId : String) : AgentRegistry := reg.erase agentId

/-- `get_mut(agent_id)`, and what is done to the agent there. -/
def modify (reg : AgentRegistry) (agentId : String) (f : AgentMetadata → AgentMetadata) :
    AgentRegistry :=
  match reg.lookup agentId with
  | some agent => reg.insert agentId (f agent)
  | none => reg

def updateHeartbeat (reg : AgentRegistry) (agentId : String) (now : Int64) : AgentRegistry :=
  reg.modify agentId fun agent => { agent with lastHeartbeat := now, healthy := true }

def updateTrustScore (reg : AgentRegistry) (agentId : String) (trustScore : Float32) :
    AgentRegistry :=
  reg.modify agentId fun agent => { agent with trustScore }

def markUnhealthy (reg : AgentRegistry) (agentId : String) : AgentRegistry :=
  reg.modify agentId fun agent => { agent with healthy := false }

/-- The ids of the agents not heard of for longer than `timeoutMs`. -/
def staleAgents (reg : AgentRegistry) (timeoutMs now : Int64) : List String :=
  (reg.entries.filter fun e => decide (timeoutMs < now - e.2.lastHeartbeat)).map
    fun e => e.2.agentId

def cleanupStale (reg : AgentRegistry) (timeoutMs now : Int64) : AgentRegistry :=
  (reg.staleAgents timeoutMs now).foldl (fun reg id => reg.erase id) reg

end AgentRegistry

/-! ## Capabilities -/

namespace CapabilityRuntime

def revoke (rt : CapabilityRuntime) (agentId : String) (capability : Capability) :
    CapabilityRuntime :=
  match rt.activeTokens.lookup agentId with
  | some set => { rt with activeTokens := rt.activeTokens.insert agentId (set.erase capability) }
  | none => rt

def isolateAgent (rt : CapabilityRuntime) (agentId : String) : CapabilityRuntime :=
  { rt with activeTokens := rt.activeTokens.erase agentId }

theorem hasCapability_iff {rt : CapabilityRuntime} {id : String} {c : Capability} :
    rt.hasCapability id c = true ↔ ∃ set, rt.activeTokens.lookup id = some set ∧ c ∈ set := by
  unfold hasCapability
  cases rt.activeTokens.lookup id with
  | none => simp
  | some set => simp

theorem hasCapability_grant (rt : CapabilityRuntime) (agentId id : String)
    (capability c : Capability) :
    (rt.grant agentId capability).hasCapability id c = true ↔
      (id = agentId ∧ c = capability) ∨ rt.hasCapability id c = true := by
  rw [hasCapability_iff, hasCapability_iff, grant]
  by_cases hid : id = agentId
  · subst hid
    rw [AList.lookup_insert]
    cases rt.activeTokens.lookup id with
    | none => simp
    | some set => simp
  · rw [AList.lookup_insert_ne hid]
    exact (or_iff_right fun h => hid h.1).symm

theorem hasCapability_revoke (rt : CapabilityRuntime) (agentId id : String)
    (capability c : Capability) :
    (rt.revoke agentId capability).hasCapability id c = true ↔
      rt.hasCapability id c = true ∧ ¬ (id = agentId ∧ c = capability) := by
  rw [hasCapability_iff, hasCapability_iff, revoke]
  by_cases hid : id = agentId
  · subst hid
    cases hset : rt.activeTokens.lookup id with
    | none => simp [hset]
    | some set =>
        dsimp only
        rw [AList.lookup_insert]
        simp [Finset.mem_erase, and_comm]
  · have hsame : (rt.revoke agentId capability).activeTokens.lookup id =
        rt.activeTokens.lookup id := by
      unfold revoke
      split
      · exact AList.lookup_insert_ne hid
      · rfl
    rw [revoke] at hsame
    rw [hsame]
    exact (and_iff_left fun h => hid h.1).symm

theorem hasCapability_isolateAgent (rt : CapabilityRuntime) (agentId id : String)
    (c : Capability) :
    (rt.isolateAgent agentId).hasCapability id c = true ↔
      rt.hasCapability id c = true ∧ id ≠ agentId := by
  rw [hasCapability_iff, hasCapability_iff, isolateAgent]
  by_cases hid : id = agentId
  · subst hid
    simp
  · rw [AList.lookup_erase_ne hid]
    exact (and_iff_left hid).symm

/-- The answer of `capability_check`. -/
structure CapabilityResponse where
  approved : Bool
  grantedCapabilities : List String
  deniedCapabilities : List String
  deriving DecidableEq, Repr

/-- The server's `capability_check`, without its random decision id. -/
def capabilityCheck (rt : CapabilityRuntime) (requestingAgent : String)
    (requestedCapabilities : List String) : Except String CapabilityResponse :=
  if requestingAgent = "" then .error "requesting_agent is required"
  else
    let held := fun capStr => match Capability.fromStr capStr with
      | some c => rt.hasCapability requestingAgent c
      | none => false
    let granted := requestedCapabilities.filter held
    let denied := requestedCapabilities.filter fun capStr => !held capStr
    .ok
      { approved := denied.isEmpty && !granted.isEmpty
        grantedCapabilities := granted
        deniedCapabilities := denied }

/-- What is approved: some capabilities, all of them known and held. -/
theorem capabilityCheck_approved {rt : CapabilityRuntime} {agent : String} {rs : List String}
    (hagent : agent ≠ "") :
    (∃ response, rt.capabilityCheck agent rs = .ok response ∧ response.approved = true) ↔
      rs ≠ [] ∧ rt.checkRequested agent rs = .ok () := by
  rw [checkRequested_iff]
  unfold capabilityCheck
  rw [if_neg hagent]
  simp only [Except.ok.injEq, exists_eq_left', Bool.and_eq_true, List.isEmpty_iff,
    List.filter_eq_nil_iff, Bool.not_eq_true', ← Bool.not_eq_true]
  have hheld : ∀ r, (match Capability.fromStr r with
      | some c => rt.hasCapability agent c
      | none => false) = true ↔
        ∃ c, Capability.fromStr r = some c ∧ rt.hasCapability agent c = true := by
    intro r
    cases Capability.fromStr r with
    | none => simp
    | some c => simp
  simp only [hheld, not_not]
  constructor
  · rintro ⟨hall, hsome⟩
    refine ⟨fun hnil => hsome ?_, hall⟩
    intro r hr
    rw [hnil] at hr
    cases hr
  · rintro ⟨hne, hall⟩
    refine ⟨hall, fun hnone => ?_⟩
    obtain ⟨r, hr⟩ := List.exists_mem_of_ne_nil rs hne
    exact hnone r hr (hall r hr)

end CapabilityRuntime

/-! ## Runs -/

/-- A call on the registry or on the capability manager. -/
inductive RegistryCall
  | register (metadata : AgentMetadata)
  | unregister (agentId : String)
  | updateHeartbeat (agentId : String) (now : Int64)
  | updateTrustScore (agentId : String) (trustScore : Float32)
  | markUnhealthy (agentId : String)
  | cleanupStale (timeoutMs now : Int64)
  | grant (agentId : String) (capability : Capability)
  | revoke (agentId : String) (capability : Capability)
  | isolateAgent (agentId : String)

namespace RegistryCall

/-- What a call does; the manager asks the registry the calls change. -/
def run (rt : CapabilityRuntime) : RegistryCall → CapabilityRuntime
  | register metadata => { rt with registry := rt.registry.register metadata }
  | unregister agentId => { rt with registry := rt.registry.unregister agentId }
  | updateHeartbeat agentId now =>
      { rt with registry := rt.registry.updateHeartbeat agentId now }
  | updateTrustScore agentId trustScore =>
      { rt with registry := rt.registry.updateTrustScore agentId trustScore }
  | markUnhealthy agentId => { rt with registry := rt.registry.markUnhealthy agentId }
  | cleanupStale timeoutMs now =>
      { rt with registry := rt.registry.cleanupStale timeoutMs now }
  | grant agentId capability => rt.grant agentId capability
  | revoke agentId capability => rt.revoke agentId capability
  | isolateAgent agentId => rt.isolateAgent agentId

/-- The call takes `c` away from the id: it revokes it, or isolates the agent. -/
def Withdraws (id : String) (c : Capability) (call : RegistryCall) : Prop :=
  call = revoke id c ∨ call = isolateAgent id

/-- The call registers an agent under the id. -/
def Registers (id : String) (call : RegistryCall) : Prop :=
  ∃ metadata : AgentMetadata, metadata.agentId = id ∧ call = register metadata

/-- What a call does to what an id holds. -/
theorem hasCapability_run (rt : CapabilityRuntime) (call : RegistryCall) (id : String)
    (c : Capability) :
    (call.run rt).hasCapability id c = true ↔
      call = grant id c ∨ (rt.hasCapability id c = true ∧ ¬ Withdraws id c call) := by
  unfold Withdraws
  cases call with
  | grant agentId capability =>
      rw [run, rt.hasCapability_grant, grant.injEq, @eq_comm _ id, @eq_comm _ c]
      simp
  | revoke agentId capability =>
      rw [run, rt.hasCapability_revoke, revoke.injEq, @eq_comm _ id, @eq_comm _ c]
      simp
  | isolateAgent agentId =>
      rw [run, rt.hasCapability_isolateAgent, isolateAgent.injEq, ne_comm]
      simp
  | register | unregister | updateHeartbeat | updateTrustScore | markUnhealthy | cleanupStale =>
      show rt.hasCapability id c = true ↔ _
      simp

end RegistryCall

/-- The registry and the manager after the calls, from a server with neither. -/
def afterCalls (calls : List RegistryCall) : CapabilityRuntime :=
  Run.after RegistryCall.run { registry := ∅, activeTokens := ∅ } calls

/-- The capability was granted to the id in these calls, and not withdrawn after. -/
def Granted (calls : List RegistryCall) (id : String) (c : Capability) : Prop :=
  Run.SwitchedOn (· = .grant id c) (RegistryCall.Withdraws id c) calls

/-- What an id holds is what was granted to it and not withdrawn since. -/
theorem hasCapability_runs (calls : List RegistryCall) (id : String) (c : Capability) :
    (afterCalls calls).hasCapability id c = true ↔ Granted calls id c := by
  unfold afterCalls Granted
  rw [Run.switched_iff RegistryCall.run
    (I := fun rt : CapabilityRuntime => rt.hasCapability id c = true)
    fun rt call => RegistryCall.hasCapability_run rt call id c]
  refine or_iff_left fun h => ?_
  obtain ⟨set, hset, -⟩ := CapabilityRuntime.hasCapability_iff.mp h.1
  exact nomatch hset

theorem granted_append {past rest : List RegistryCall} {id : String} {c : Capability} :
    Granted (past ++ rest) id c ↔
      Granted rest id c ∨ (Granted past id c ∧ ∀ call ∈ rest, ¬ call.Withdraws id c) := by
  rw [← hasCapability_runs, afterCalls, Run.after_append,
    Run.switched_iff RegistryCall.run
      (I := fun rt : CapabilityRuntime => rt.hasCapability id c = true)
      fun rt call => RegistryCall.hasCapability_run rt call id c]
  refine or_congr_right (and_congr_left' ?_)
  exact hasCapability_runs past id c

/-! ## Registrations -/

/-- After a registration the id holds exactly what it was granted since and is not revoked. -/
def StartsClean (past : List RegistryCall) (metadata : AgentMetadata)
    (rest : List RegistryCall) : Prop :=
  ∀ c, (afterCalls (past ++ .register metadata :: rest)).hasCapability metadata.agentId c = true ↔
    Granted rest metadata.agentId c

/-- What an id holds is what was granted to it and not withdrawn since, whatever happened to the
registration; so a registration starts clean exactly when all that was granted before it is
withdrawn or granted again after it. -/
theorem startsClean_iff :
    (∀ calls id c, (afterCalls calls).hasCapability id c = true ↔ Granted calls id c) ∧
    ∀ past metadata rest, StartsClean past metadata rest ↔
      ∀ c, Granted past metadata.agentId c →
        Granted rest metadata.agentId c ∨ ∃ call ∈ rest, call.Withdraws metadata.agentId c := by
  refine ⟨hasCapability_runs, fun past metadata rest => forall_congr' fun c => ?_⟩
  have hgranted : Granted (.register metadata :: rest) metadata.agentId c ↔
      Granted rest metadata.agentId c :=
    Run.switchedOn_cons.trans (or_iff_left fun h => nomatch h.1)
  have hkept : (∀ call ∈ RegistryCall.register metadata :: rest,
      ¬ call.Withdraws metadata.agentId c) ↔
        ¬ ∃ call ∈ rest, call.Withdraws metadata.agentId c := by
    rw [List.forall_mem_cons, and_iff_right (fun h => nomatch h)]
    push Not
    exact Iff.rfl
  rw [hasCapability_runs, granted_append, hgranted, hkept, or_iff_left_iff_imp]
  constructor
  · intro h hpast
    exact or_iff_not_imp_right.mpr fun hrest => h ⟨hpast, hrest⟩
  · rintro h ⟨hpast, hrest⟩
    exact (h hpast).resolve_right hrest

/-! An agent that comes back. -/

def planner : AgentMetadata :=
  { agentId := "planner", serviceName := "planner-service", address := "127.0.0.1:50051",
    publicKey := [1, 2, 3], capabilities := [], trustScore := 0.91, lastHeartbeat := 0,
    healthy := true }

/-- What was granted to the agent before it was unregistered, it holds when it is back. -/
theorem not_startsClean :
    ¬ StartsClean
        [.register planner, .grant "planner" .halOverride, .unregister "planner"] planner [] ∧
      ¬ StartsClean
        [.register planner, .grant "planner" .halOverride, .cleanupStale 1000 60000] planner
        [] := by
  have hnone : ∀ c, ¬ Granted [] "planner" c := by
    rintro c ⟨past, a, rest, hnil, -⟩
    exact List.append_ne_nil_of_right_ne_nil past (List.cons_ne_nil a rest) hnil.symm
  refine ⟨fun h => ?_, fun h => ?_⟩
  · exact hnone .halOverride ((h .halOverride).mp (by decide))
  · exact hnone .halOverride ((h .halOverride).mp (by decide))

end AgentIpc

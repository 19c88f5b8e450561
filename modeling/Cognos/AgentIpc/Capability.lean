/-
# `Cognos.AgentIpc.Capability` — registered agents and what they may do

`registry.rs` and `capability.rs`: the agents by name, and for each name the set of
capabilities granted to it.  `validate_envelope` asks both about the sender a message
names.  The registry keeps a public key for each agent; nothing asks it for one.
-/
import Mathlib
import Cognos.AgentIpc.Envelope

namespace AgentIpc

/-! ## The registry -/

structure AgentMetadata where
  agentId : String
  serviceName : String
  address : String
  publicKey : List UInt8
  capabilities : List String
  trustScore : Float32
  lastHeartbeat : Int64
  healthy : Bool

abbrev AgentRegistry := AList fun _ : String => AgentMetadata

namespace AgentRegistry

def register (reg : AgentRegistry) (metadata : AgentMetadata) : AgentRegistry :=
  reg.insert metadata.agentId metadata

/-- `exists`. -/
def has (reg : AgentRegistry) (agentId : String) : Bool := decide (agentId ∈ reg)

def verifyAgentKey (reg : AgentRegistry) (agentId : String) (publicKey : List UInt8) : Bool :=
  ((reg.lookup agentId).map fun a => decide (a.publicKey = publicKey)).getD false

theorem verifyAgentKey_iff {reg : AgentRegistry} {agentId : String} {publicKey : List UInt8} :
    verifyAgentKey reg agentId publicKey = true ↔
      ∃ a, reg.lookup agentId = some a ∧ a.publicKey = publicKey := by
  unfold verifyAgentKey
  cases reg.lookup agentId with
  | none => simp
  | some a => simp

end AgentRegistry

/-! ## Capabilities -/

inductive Capability
  | memoryRead
  | memoryWrite
  | filesystemRead
  | filesystemWrite
  | networkOutbound
  | networkInbound
  | processSpawn
  | shellExecute
  | modelInference
  | schedulerControl
  | uiOverlay
  | halOverride
  deriving DecidableEq, Repr

namespace Capability

def asStr : Capability → String
  | memoryRead => "memory.read"
  | memoryWrite => "memory.write"
  | filesystemRead => "filesystem.read"
  | filesystemWrite => "filesystem.write"
  | networkOutbound => "network.outbound"
  | networkInbound => "network.inbound"
  | processSpawn => "process.spawn"
  | shellExecute => "shell.execute"
  | modelInference => "model.inference"
  | schedulerControl => "scheduler.control"
  | uiOverlay => "ui.overlay"
  | halOverride => "hal.override"

def fromStr : String → Option Capability
  | "memory.read" => some memoryRead
  | "memory.write" => some memoryWrite
  | "filesystem.read" => some filesystemRead
  | "filesystem.write" => some filesystemWrite
  | "network.outbound" => some networkOutbound
  | "network.inbound" => some networkInbound
  | "process.spawn" => some processSpawn
  | "shell.execute" => some shellExecute
  | "model.inference" => some modelInference
  | "scheduler.control" => some schedulerControl
  | "ui.overlay" => some uiOverlay
  | "hal.override" => some halOverride
  | _ => none

@[simp] theorem fromStr_asStr (c : Capability) : fromStr c.asStr = some c := by
  cases c <;> rfl

end Capability

/-- `CapabilityRuntime`: the registry it asks, and the capabilities granted by name. -/
structure CapabilityRuntime where
  registry : AgentRegistry
  activeTokens : AList fun _ : String => Finset Capability

namespace CapabilityRuntime

def grant (rt : CapabilityRuntime) (agentId : String) (capability : Capability) :
    CapabilityRuntime :=
  let entry := (rt.activeTokens.lookup agentId).getD ∅
  { rt with activeTokens := rt.activeTokens.insert agentId (insert capability entry) }

def hasCapability (rt : CapabilityRuntime) (agentId : String) (capability : Capability) : Bool :=
  ((rt.activeTokens.lookup agentId).map fun set => decide (capability ∈ set)).getD false

/-- The loop over the requested capabilities: the first one that is not held is named. -/
def checkRequested (rt : CapabilityRuntime) (agentId : String) : List String → Except String Unit
  | [] => .ok ()
  | requested :: rest =>
      match Capability.fromStr requested with
      | none => .error ("unknown capability " ++ requested)
      | some capability =>
          if rt.hasCapability agentId capability then rt.checkRequested agentId rest
          else .error ("missing capability " ++ requested)

def validateEnvelope (rt : CapabilityRuntime) (e : IntentEnvelope) : Except String Unit :=
  match rt.registry.lookup e.sourceAgent with
  | none => .error "unknown agent"
  | some agent =>
      if !agent.healthy then .error "agent unhealthy"
      else if agent.trustScore < 0.20 then .error "agent trust score too low"
      else rt.checkRequested e.sourceAgent e.requestedCapabilities

theorem checkRequested_iff {rt : CapabilityRuntime} {agentId : String} {rs : List String} :
    rt.checkRequested agentId rs = .ok () ↔
      ∀ r ∈ rs, ∃ c, Capability.fromStr r = some c ∧ rt.hasCapability agentId c = true := by
  induction rs with
  | nil => simp [checkRequested]
  | cons r rs ih =>
      rw [checkRequested, List.forall_mem_cons]
      cases hr : Capability.fromStr r with
      | none => simp
      | some c =>
          by_cases hc : rt.hasCapability agentId c = true
          · simp [hc, ih]
          · simp [hc]

/-- What `validate_envelope` passes: a healthy, trusted sender that holds what it asks for. -/
theorem validateEnvelope_iff {rt : CapabilityRuntime} {e : IntentEnvelope} :
    rt.validateEnvelope e = .ok () ↔
      ∃ agent, rt.registry.lookup e.sourceAgent = some agent ∧ agent.healthy = true ∧
        ¬ agent.trustScore < 0.20 ∧ ∀ r ∈ e.requestedCapabilities, ∃ c,
          Capability.fromStr r = some c ∧ rt.hasCapability e.sourceAgent c = true := by
  unfold validateEnvelope
  cases rt.registry.lookup e.sourceAgent with
  | none => simp
  | some agent =>
      simp only [Option.some.injEq, exists_eq_left']
      by_cases hh : agent.healthy = true
      · by_cases ht : agent.trustScore < 0.20
        · simp [hh, ht]
        · simp only [hh, ht, Bool.not_true, Bool.false_eq_true, if_false, not_false_eq_true,
            true_and]
          exact checkRequested_iff
      · simp [hh]

end CapabilityRuntime

end AgentIpc

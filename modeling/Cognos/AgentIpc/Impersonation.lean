/-
# `Cognos.AgentIpc.Impersonation` — under which key a sender is believed

An accepted envelope verifies under a key of the envelope's own choice.  For a given
content and key, no signature passes for the named sender only when

    another check turns the content away, or
    the key is the one registered for the sender, or
    nobody can sign under the key at all.

The second is what `verify_agent_key` answers; `dispatch` never asks it.
-/
import Mathlib
import Cognos.AgentIpc.Server

namespace AgentIpc

/-- Where the holder of the one key can sign a message at all, he can sign it so that the other
key does not verify. -/
def Ed25519.Separates (V : Ed25519) (key other message : List UInt8) : Prop :=
  (∃ signature, V.verify key message signature = true) →
    ∃ signature, V.verify key message signature = true ∧ V.verify other message signature = false

/-- An envelope with this signature. -/
def IntentEnvelope.carrying (e : IntentEnvelope) (sig : Signature) : IntentEnvelope :=
  { e with signature := some sig }

namespace CognosAgentService

variable (V : Ed25519) (H : Sha256)

/-- The signature verifies under the key registered for the sender. -/
def SenderVerified (reg : AgentRegistry) (e : IntentEnvelope) : Prop :=
  ∃ agent sig, reg.lookup e.sourceAgent = some agent ∧ e.signature = some sig ∧
    V.verify agent.publicKey (e.signed H) sig.signatureBytes = true

/-- Whatever signature comes with the content of `e` and the public key `key`, it is accepted
only if it is the named sender's. -/
def Authentic (s : CognosAgentService) (e : IntentEnvelope) (r : DispatchReadings)
    (key : List UInt8) : Prop :=
  ∀ algorithm signature,
    (∃ response, (s.dispatch V H (e.carrying ⟨algorithm, key, signature⟩) r).2 = .ok response) →
      SenderVerified V H s.registry (e.carrying ⟨algorithm, key, signature⟩)

variable {s : CognosAgentService} {e : IntentEnvelope} {r : DispatchReadings} {key : List UInt8}

/-- The other checks look at the content only. -/
theorem admits_carrying (sig : Signature) : s.Admits (e.carrying sig) r ↔ s.Admits e r :=
  ⟨fun h => ⟨h.rate, h.nonce, h.unseen, h.window, h.sender, h.target⟩,
    fun h => ⟨h.rate, h.nonce, h.unseen, h.window, h.sender, h.target⟩⟩

/-- A content that passes the other checks is accepted with any signature of the key that
comes with it. -/
theorem dispatch_carrying_iff {algorithm : String} {signature : List UInt8} :
    (∃ response, (s.dispatch V H (e.carrying ⟨algorithm, key, signature⟩) r).2 = .ok response) ↔
      s.Admits e r ∧ algorithm = "ed25519" ∧ V.verify key (e.signed H) signature = true := by
  rw [dispatch_ok_iff, admits_carrying, verifyEnvelope_iff]
  constructor
  · rintro ⟨ha, sig, hsig, halg, hver⟩
    cases hsig
    exact ⟨ha, halg, hver⟩
  · rintro ⟨ha, halg, hver⟩
    exact ⟨ha, _, rfl, halg, hver⟩

/-- A sender who passes the capability check is registered. -/
theorem Admits.registered (h : s.Admits e r) :
    ∃ agent, s.registry.lookup e.sourceAgent = some agent := by
  obtain ⟨agent, hagent, -⟩ := CapabilityRuntime.validateEnvelope_iff.mp h.sender
  exact ⟨agent, hagent⟩

theorem senderVerified_carrying {algorithm : String} {signature : List UInt8}
    {agent : AgentMetadata} (hagent : s.registry.lookup e.sourceAgent = some agent) :
    SenderVerified V H s.registry (e.carrying ⟨algorithm, key, signature⟩) ↔
      V.verify agent.publicKey (e.signed H) signature = true := by
  constructor
  · rintro ⟨agent', sig, hagent', hsig, hver⟩
    have hlookup : some agent = some agent' := hagent.symm.trans hagent'
    cases hlookup
    cases hsig
    exact hver
  · intro hver
    exact ⟨agent, _, hagent, rfl, hver⟩

/-- An accepted envelope is its sender's exactly when another check refuses it, the sender's
key was presented, or the presented key signs nothing. -/
theorem authentic_iff
    (hV : ∀ agent, s.registry.lookup e.sourceAgent = some agent → agent.publicKey ≠ key →
      V.Separates key agent.publicKey (e.signed H)) :
    Authentic V H s e r key ↔
      ¬ s.Admits e r ∨ s.registry.verifyAgentKey e.sourceAgent key = true ∨
        ∀ signature, V.verify key (e.signed H) signature = false := by
  constructor
  · intro h
    by_cases ha : s.Admits e r
    · obtain ⟨agent, hagent⟩ := ha.registered
      by_cases hkey : agent.publicKey = key
      · exact Or.inr (Or.inl (AgentRegistry.verifyAgentKey_iff.mpr ⟨agent, hagent, hkey⟩))
      · refine Or.inr (Or.inr fun signature => ?_)
        by_contra hver
        rw [Bool.not_eq_false] at hver
        obtain ⟨forged, hforged, hother⟩ := hV agent hagent hkey ⟨signature, hver⟩
        have hsender := h "ed25519" forged
          ((dispatch_carrying_iff V H).mpr ⟨ha, rfl, hforged⟩)
        rw [senderVerified_carrying V H hagent, hother] at hsender
        cases hsender
    · exact Or.inl ha
  · intro h algorithm signature haccept
    obtain ⟨ha, -, hver⟩ := (dispatch_carrying_iff V H).mp haccept
    rcases h with h | h | h
    · exact absurd ha h
    · obtain ⟨agent, hagent, rfl⟩ := AgentRegistry.verifyAgentKey_iff.mp h
      exact (senderVerified_carrying V H hagent).mpr hver
    · rw [h signature] at hver
      cases hver

/-! ## A forged sender

Two key pairs, the digest and the signatures are real ones: the second key's holder, and then the
first key's, signs an envelope in the name of the agent the first key is registered for. -/

namespace Forged

def plannerKey : List UInt8 :=
  Sha256.bytes32 0xd75a980182b10ab7d54bfed3c964073a0ee172f3daa62325af021a68f707511a

def intruderKey : List UInt8 :=
  Sha256.bytes32 0x3d4017c3e843895a92b70aa74d1b7ebc9c982ccf2ec4968cc0cd55f12af4660c

def content : IntentEnvelope where
  envelopeId := "env-1"
  intentId := "intent-1"
  sourceAgent := "planner"
  targetAgent := "memory"
  capabilityToken := ""
  actionGraphHash := ""
  timestampUnixMs := 1767225600000
  nonce := "8c0b5c1e-4b0e-4f0a-9a3e-2d7c1f6b9e10"
  sessionId := ""
  userId := ""
  intentType := "unknown"
  intentPayloadJson := "\x7b\x7d"
  riskEstimate := 0.0
  trustScore := 0.0
  requiresHal := false
  requestedCapabilities := []
  audit := none
  signature := none

/-- The SHA-256 of `content.hashInput`. -/
def digest : Nat := 0xf73b3a877cb944b129a5afc87549e066ffe1737ec0e72acf1067ac48ecc6f1ba

def sha : Sha256 where
  digest bs := Sha256.bytes32 (if bs = content.hashInput then digest else 0)
  length_digest bs := by rw [Sha256.bytes32, List.length_map, List.length_range]

/-- What is signed. -/
def message : List UInt8 := Text.bytes (Hex.encode (Sha256.bytes32 digest))

def forgedSignature : List UInt8 :=
  Sha256.bytes32 0xbcb49db35cf9d7aa0653a572b44d405db58381424c9c137ac7864932d6bca6f0 ++
    Sha256.bytes32 0x7658dcfc60682ccbbfc0637b59cc0192d7f28a86b4690ebba2c1fe8d0cbba305

def plannerSignature : List UInt8 :=
  Sha256.bytes32 0xc2a72d04e2becb8a3f3225b2e3e1f4a0449a0afb58f003c6323906f8eaeaebdd ++
    Sha256.bytes32 0x95a99873476b8ebd6a9aa5f340be31e3a404879aa9fa60e83f5b6f3e94d26a02

def ed25519 : Ed25519 where
  verify key m signature := decide (m = message ∧
    (key = intruderKey ∧ signature = forgedSignature ∨
      key = plannerKey ∧ signature = plannerSignature))

def agent (agentId : String) : AgentMetadata where
  agentId := agentId
  serviceName := agentId
  address := "127.0.0.1:50051"
  publicKey := plannerKey
  capabilities := []
  trustScore := 0.9
  lastHeartbeat := 1767225600000
  healthy := true

def service : CognosAgentService :=
  CognosAgentService.new
    ⟨((∅ : AgentRegistry).register (agent "planner")).register (agent "memory"), ∅⟩

def readings : DispatchReadings where
  wall := 1767225600005
  recorded := 1000000000
  swept := 1000000000
  arrived := 1000000000
  eventId := Uuid.numbered 1
  eventTime := 1767225600005
  responseId := Uuid.numbered 2
  responseTime := 1767225600005

theorem verify_iff {key m signature : List UInt8} :
    ed25519.verify key m signature = true ↔
      m = message ∧ (key = intruderKey ∧ signature = forgedSignature ∨
        key = plannerKey ∧ signature = plannerSignature) :=
  decide_eq_true_iff

theorem signed_content : content.signed sha = message := by
  show Text.bytes (Hex.encode (Sha256.bytes32 (if content.hashInput = content.hashInput
    then digest else 0))) = message
  rw [if_pos rfl, message]

theorem admits_content : service.Admits content readings where
  rate := rfl
  nonce := by decide
  unseen := AList.notMem_empty _
  window := by decide
  sender := CapabilityRuntime.validateEnvelope_iff.mpr
    ⟨agent "planner", rfl, rfl, by decide, fun _ hr => absurd hr List.not_mem_nil⟩
  target := rfl

theorem plannerKey_ne : plannerKey ≠ intruderKey := by decide

theorem verify_forged : ed25519.verify intruderKey (content.signed sha) forgedSignature = true :=
  verify_iff.mpr ⟨signed_content, Or.inl ⟨rfl, rfl⟩⟩

theorem verify_planner : ed25519.verify plannerKey (content.signed sha) plannerSignature = true :=
  verify_iff.mpr ⟨signed_content, Or.inr ⟨rfl, rfl⟩⟩

/-- The planner's key does not verify what the other has signed. -/
theorem not_verify_planner :
    ed25519.verify plannerKey (content.signed sha) forgedSignature ≠ true := by
  intro h
  rcases (verify_iff.mp h).2 with ⟨hkey, -⟩ | ⟨-, hsignature⟩
  · exact plannerKey_ne hkey
  · exact absurd hsignature (by decide)

end Forged

/-- The forged envelope is accepted as the planner's. -/
theorem not_authentic_forged :
    ¬ Authentic Forged.ed25519 Forged.sha Forged.service Forged.content Forged.readings
      Forged.intruderKey := by
  intro h
  have hsender := h "ed25519" Forged.forgedSignature
    ((dispatch_carrying_iff _ _).mpr ⟨Forged.admits_content, rfl, Forged.verify_forged⟩)
  have hagent : Forged.service.registry.lookup Forged.content.sourceAgent =
      some (Forged.agent "planner") := rfl
  rw [senderVerified_carrying _ _ hagent] at hsender
  exact Forged.not_verify_planner hsender

/-- With the planner's own key the content is the planner's, who can send it; with the other key
it is not. -/
theorem authentic_iff_planner :
    (∃ response, (Forged.service.dispatch Forged.ed25519 Forged.sha (Forged.content.carrying
        ⟨"ed25519", Forged.plannerKey, Forged.plannerSignature⟩) Forged.readings).2 =
          .ok response) ∧
      Authentic Forged.ed25519 Forged.sha Forged.service Forged.content Forged.readings
        Forged.plannerKey ∧
      ¬ Authentic Forged.ed25519 Forged.sha Forged.service Forged.content Forged.readings
        Forged.intruderKey := by
  have hagent : Forged.service.registry.lookup Forged.content.sourceAgent =
      some (Forged.agent "planner") := rfl
  refine ⟨(dispatch_carrying_iff _ _).mpr ⟨Forged.admits_content, rfl, Forged.verify_planner⟩,
    (authentic_iff Forged.ed25519 Forged.sha fun agent hlookup hne => ?_).mpr
      (Or.inr (Or.inl (AgentRegistry.verifyAgentKey_iff.mpr ⟨_, hagent, rfl⟩))), ?_⟩
  · cases Option.some.inj (hagent.symm.trans hlookup)
    exact absurd rfl hne
  · rw [authentic_iff Forged.ed25519 Forged.sha fun agent hlookup _ => by
      cases Option.some.inj (hagent.symm.trans hlookup)
      exact fun _ => ⟨Forged.forgedSignature, Forged.verify_forged,
        Bool.eq_false_iff.mpr Forged.not_verify_planner⟩]
    rintro (hrefused | hkey | hnone)
    · exact hrefused Forged.admits_content
    · obtain ⟨agent, hlookup, hkey⟩ := AgentRegistry.verifyAgentKey_iff.mp hkey
      cases Option.some.inj (hagent.symm.trans hlookup)
      exact Forged.plannerKey_ne hkey
    · exact absurd (hnone Forged.forgedSignature) (by simp [Forged.verify_forged])

end CognosAgentService

end AgentIpc

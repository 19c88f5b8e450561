/-
# `Cognos.AgentIpc.HashCoverage` — which fields the hash of an envelope determines

`payload_hash` feeds seven fields to the hash, with nothing between them, and leaves out
the fields the capability check and HAL look at.  So two things go wrong, each for its
own envelopes:

    a field that is not hashed can be changed     in every envelope
    a character can move to the next field        unless all six texts are empty

Everything is said of the bytes that are hashed: where these agree, so do the hash, what
is signed and every signature's verdict.
-/
import Mathlib
import Cognos.AgentIpc.Server

namespace AgentIpc

namespace IntentEnvelope

variable {a b : IntentEnvelope}

/-- The fields that are hashed agree. -/
structure SameHashed (a b : IntentEnvelope) : Prop where
  intentId : a.intentId = b.intentId
  sourceAgent : a.sourceAgent = b.sourceAgent
  targetAgent : a.targetAgent = b.targetAgent
  intentPayloadJson : a.intentPayloadJson = b.intentPayloadJson
  timestampUnixMs : a.timestampUnixMs = b.timestampUnixMs
  nonce : a.nonce = b.nonce
  sessionId : a.sessionId = b.sessionId

/-- The other fields a receiver's checks read agree. -/
structure SameChecked (a b : IntentEnvelope) : Prop where
  requestedCapabilities : a.requestedCapabilities = b.requestedCapabilities
  requiresHal : a.requiresHal = b.requiresHal
  riskEstimate : a.riskEstimate = b.riskEstimate
  trustScore : a.trustScore = b.trustScore
  userId : a.userId = b.userId

/-- What is hashed of `a` is hashed of no envelope with other hashed fields. -/
def HashedBound (a : IntentEnvelope) : Prop :=
  ∀ b : IntentEnvelope, a.hashInput = b.hashInput → SameHashed a b

/-- What is hashed of `a` is hashed of no envelope that differs in a field of either kind. -/
def Bound (a : IntentEnvelope) : Prop :=
  ∀ b : IntentEnvelope, a.hashInput = b.hashInput → SameHashed a b ∧ SameChecked a b

/-- Envelopes that are hashed alike are signed alike. -/
theorem signed_eq (H : Sha256) (h : a.hashInput = b.hashInput) : a.signed H = b.signed H := by
  unfold signed payloadHash
  rw [h]

/-- The fields outside the hash are free. -/
theorem not_bound_of_requiresHal (a : IntentEnvelope) : ¬ Bound a := by
  intro h
  have hflip := (h { a with requiresHal := !a.requiresHal } rfl).2.requiresHal
  cases ha : a.requiresHal <;> simp [ha] at hflip

/-! ## Moving characters -/

theorem length_toLeBytes (n : Int64) : (toLeBytes n).length = 8 := by
  rw [toLeBytes, List.length_map, List.length_range]

/-- A number below `base ^ k` is given by its `k` digits. -/
theorem eq_of_digits {base k m n : Nat} (hm : m < base ^ k) (hn : n < base ^ k)
    (h : ∀ i < k, m / base ^ i % base = n / base ^ i % base) : m = n := by
  induction k generalizing m n with
  | zero =>
      rw [pow_zero] at hm hn
      omega
  | succ k ih =>
      rw [pow_succ] at hm hn
      have hhigh : m / base = n / base := by
        apply ih (Nat.div_lt_of_lt_mul (by rwa [Nat.mul_comm] at hm))
          (Nat.div_lt_of_lt_mul (by rwa [Nat.mul_comm] at hn))
        intro i hi
        rw [Nat.div_div_eq_div_mul, Nat.div_div_eq_div_mul, ← pow_succ']
        exact h (i + 1) (by omega)
      have hlow : m % base = n % base := by simpa using h 0 (by omega)
      rw [← Nat.div_add_mod m base, ← Nat.div_add_mod n base, hhigh, hlow]

theorem toLeBytes_injective : Function.Injective toLeBytes := by
  intro m n h
  have hbyte : ∀ i < 8, m.toBitVec.toNat / 256 ^ i % 256 = n.toBitVec.toNat / 256 ^ i % 256 := by
    intro i hi
    have hget := congrArg (fun bs : List UInt8 => (bs[i]?.getD 0).toNat) h
    simpa [toLeBytes, hi] using hget
  have heq : m.toBitVec.toNat = n.toBitVec.toNat :=
    eq_of_digits (k := 8) m.toBitVec.isLt n.toBitVec.isLt hbyte
  exact Int64.toBitVec_inj.mp (BitVec.eq_of_toNat_eq heq)

/-- The six hashed texts are empty. -/
structure Blank (a : IntentEnvelope) : Prop where
  intentId : a.intentId = ""
  sourceAgent : a.sourceAgent = ""
  targetAgent : a.targetAgent = ""
  intentPayloadJson : a.intentPayloadJson = ""
  nonce : a.nonce = ""
  sessionId : a.sessionId = ""

/-- The four texts before the time stamp as one, in the field `intentId`. -/
def gathered (a : IntentEnvelope) : IntentEnvelope :=
  { a with
    intentId := a.intentId ++ a.sourceAgent ++ a.targetAgent ++ a.intentPayloadJson
    sourceAgent := ""
    targetAgent := ""
    intentPayloadJson := "" }

theorem bytes_empty : Text.bytes "" = [] := rfl

theorem hashInput_gathered (a : IntentEnvelope) : a.hashInput = a.gathered.hashInput := by
  simp [hashInput, gathered, bytes_empty]

/-- The intent id handed on to the sender's name. -/
theorem hashInput_shifted (a : IntentEnvelope) :
    a.hashInput =
      hashInput { a with intentId := "", sourceAgent := a.intentId ++ a.sourceAgent } := by
  simp [hashInput, bytes_empty]

/-- The nonce handed on to the session id. -/
theorem hashInput_nonce_shifted (a : IntentEnvelope) :
    a.hashInput = hashInput { a with nonce := "", sessionId := a.nonce ++ a.sessionId } := by
  simp [hashInput, bytes_empty]

/-- The session id handed back to the nonce. -/
theorem hashInput_session_shifted (a : IntentEnvelope) :
    a.hashInput = hashInput { a with nonce := a.nonce ++ a.sessionId, sessionId := "" } := by
  simp [hashInput, bytes_empty]

theorem HashedBound.blank (h : HashedBound a) : Blank a := by
  have hgathered := h _ (hashInput_gathered a)
  exact ⟨(h _ (hashInput_shifted a)).intentId, hgathered.sourceAgent, hgathered.targetAgent,
    hgathered.intentPayloadJson, (h _ (hashInput_nonce_shifted a)).nonce,
    (h _ (hashInput_session_shifted a)).sessionId⟩

theorem eq_empty_of_bytes {s : String} (h : Text.bytes s = []) : s = "" :=
  Text.bytes_injective (h.trans bytes_empty.symm)

/-- Nothing but the time stamp fits into eight bytes. -/
theorem blank_of_length (h : a.hashInput.length = 8) : Blank a := by
  simp only [hashInput, List.length_append, length_toLeBytes] at h
  have hempty : ∀ s : String, (Text.bytes s).length = 0 → s = "" := fun s hs =>
    eq_empty_of_bytes (List.eq_nil_of_length_eq_zero hs)
  refine ⟨hempty _ ?_, hempty _ ?_, hempty _ ?_, hempty _ ?_, hempty _ ?_, hempty _ ?_⟩ <;> omega

theorem Blank.hashInput_eq (h : Blank a) : a.hashInput = toLeBytes a.timestampUnixMs := by
  unfold hashInput
  rw [h.intentId, h.sourceAgent, h.targetAgent, h.intentPayloadJson, h.nonce, h.sessionId,
    bytes_empty]
  simp

theorem Blank.hashedBound (h : Blank a) : HashedBound a := by
  intro b hb
  have hlen : b.hashInput.length = 8 := by
    rw [← hb, h.hashInput_eq, length_toLeBytes]
  have hblank := blank_of_length hlen
  have htime : toLeBytes a.timestampUnixMs = toLeBytes b.timestampUnixMs := by
    rw [← h.hashInput_eq, ← hblank.hashInput_eq, hb]
  exact ⟨h.intentId.trans hblank.intentId.symm, h.sourceAgent.trans hblank.sourceAgent.symm,
    h.targetAgent.trans hblank.targetAgent.symm,
    h.intentPayloadJson.trans hblank.intentPayloadJson.symm, toLeBytes_injective htime,
    h.nonce.trans hblank.nonce.symm, h.sessionId.trans hblank.sessionId.symm⟩

/-- No envelope is bound by its hash; its hashed fields are exactly when all their texts are
empty. -/
theorem not_bound (a : IntentEnvelope) : ¬ Bound a ∧ (HashedBound a ↔ Blank a) :=
  ⟨not_bound_of_requiresHal a, HashedBound.blank, Blank.hashedBound⟩

/-- An envelope between two agents that asks for these capabilities. -/
def between (source target : String) (requested : List String) : IntentEnvelope where
  envelopeId := "env-1"
  intentId := "intent-1"
  sourceAgent := source
  targetAgent := target
  capabilityToken := ""
  actionGraphHash := ""
  timestampUnixMs := 1767225600000
  nonce := "8c0b5c1e-4b0e-4f0a-9a3e-2d7c1f6b9e10"
  sessionId := ""
  userId := ""
  intentType := "unknown"
  intentPayloadJson := "\x7b\x7d"
  riskEstimate := 0.0
  trustScore := 0.0
  requiresHal := false
  requestedCapabilities := requested
  audit := none
  signature := none

/-- The planner's envelope to the memory agent is hashed like another agent's to another one,
with a capability asked for. -/
theorem not_bound_between : ¬ Bound (between "planner" "memory" []) := by
  intro h
  have hsame : (between "planner" "memory" []).hashInput =
      (between "plan" "nermemory" ["hal.override"]).hashInput := by decide
  exact absurd (h _ hsame).1.sourceAgent (by decide)

end IntentEnvelope

namespace CognosAgentService

variable (V : Ed25519) (H : Sha256)

/-- The decision of `dispatch` is not a matter of the signed bytes: an accepted envelope has a
twin, signed alike, that is refused. -/
theorem dispatch_refuses_twin {s : CognosAgentService} {e : IntentEnvelope}
    {r : DispatchReadings} (h : ∃ response, (s.dispatch V H e r).2 = .ok response) :
    ∃ e', e.hashInput = e'.hashInput ∧ verifyEnvelope V H e' = true ∧
      ∀ response, (s.dispatch V H e' r).2 ≠ .ok response := by
  obtain ⟨-, hver⟩ := (dispatch_ok_iff V H).mp h
  refine ⟨{ e with requestedCapabilities := ["?"] }, rfl, hver, fun response hr => ?_⟩
  obtain ⟨hadmits, -⟩ := (dispatch_ok_iff V H).mp ⟨response, hr⟩
  obtain ⟨-, -, -, -, hheld⟩ := CapabilityRuntime.validateEnvelope_iff.mp hadmits.sender
  obtain ⟨c, hc, -⟩ := hheld "?" (List.mem_singleton_self _)
  cases hc

end CognosAgentService

end AgentIpc

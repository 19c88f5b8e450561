/-
# `Cognos.AgentIpc.Auth` — signatures and nonces

`auth.rs`.  An envelope is verified under the public key it carries.  A nonce that was
accepted is remembered with the instant it was recorded at, for sixty seconds.

Ed25519 is a function that says whether bytes are a signature of a message under a key.
Instants are in nanoseconds.
-/
import Mathlib
import Cognos.AgentIpc.Envelope
import Cognos.Lib.AssocMap

namespace AgentIpc

/-! ## Signatures -/

/-- `UnparsedPublicKey::verify` for `ED25519`. -/
structure Ed25519 where
  verify : (publicKey message signature : List UInt8) → Bool

/-- A key pair: what it signs verifies under its public key. -/
structure Ed25519.KeyPair (V : Ed25519) where
  publicKey : List UInt8
  sign : List UInt8 → List UInt8
  verify_sign : ∀ message, V.verify publicKey message (sign message) = true

/-- The message that is signed: the hexadecimal text of the hash. -/
def IntentEnvelope.signed (H : Sha256) (e : IntentEnvelope) : List UInt8 :=
  Text.bytes (e.payloadHash H)

variable {V : Ed25519} (H : Sha256)

def signEnvelope (kp : V.KeyPair) (e : IntentEnvelope) : IntentEnvelope :=
  let sig : Signature :=
    { algorithm := "ed25519"
      publicKey := kp.publicKey
      signatureBytes := kp.sign (e.signed H) }
  { e with signature := some sig }

variable (V)

def verifyEnvelope (e : IntentEnvelope) : Bool :=
  match e.signature with
  | none => false
  | some sig =>
      if sig.algorithm = "ed25519" then V.verify sig.publicKey (e.signed H) sig.signatureBytes
      else false

theorem verifyEnvelope_iff {e : IntentEnvelope} :
    verifyEnvelope V H e = true ↔ ∃ sig, e.signature = some sig ∧ sig.algorithm = "ed25519" ∧
      V.verify sig.publicKey (e.signed H) sig.signatureBytes = true := by
  unfold verifyEnvelope
  cases e.signature with
  | none => simp
  | some sig =>
      by_cases ha : sig.algorithm = "ed25519"
      · simp [ha]
      · simp [ha]

/-- Who signs an envelope sends one that verifies, under any name. -/
theorem verifyEnvelope_signEnvelope (kp : V.KeyPair) (e : IntentEnvelope) :
    verifyEnvelope V H (signEnvelope H kp e) = true :=
  (verifyEnvelope_iff V H).mpr ⟨_, rfl, rfl, kp.verify_sign _⟩

/-! ## Nonces -/

abbrev NonceCache := AList fun _ : String => Nat

/-- The skew `validate_integrity` allows, in milliseconds. -/
def maxSkewMs : Int64 := 30000

/-- How long a nonce is kept. -/
def nonceTtl : Nat := 60 * 1000000000

/-- `is_empty() || len() <= 10`, in bytes. -/
def shortNonce (nonce : String) : Bool :=
  decide (nonce = "" ∨ (Text.bytes nonce).length ≤ 10)

/-- The clocks as `validate_integrity` reads them: the time of day for the window, the
instant a nonce is recorded at and the instant of the clean-up. -/
structure ClockReadings where
  wall : Int64
  recorded : Nat
  swept : Nat

/-- A nonce recorded at `ts` is kept at the instant `now`. -/
def fresh (now ts : Nat) : Bool := decide (now - ts < nonceTtl)

/-- `validate_integrity`, when nothing runs beside it. -/
def validateIntegrity (cache : NonceCache) (e : IntentEnvelope) (r : ClockReadings) :
    NonceCache × Except String Unit :=
  if !verifyEnvelope V H e then (cache, .error "signature verification failed")
  else if shortNonce e.nonce then (cache, .error "invalid nonce")
  else if e.nonce ∈ cache then (cache, .error "duplicate nonce (replay detected)")
  else if !e.verifyTimestamp r.wall maxSkewMs then (cache, .error "replay window exceeded")
  else ((cache.insert e.nonce r.recorded).retain fun _ ts => fresh r.swept ts, .ok ())

theorem validateIntegrity_iff {cache : NonceCache} {e : IntentEnvelope} {r : ClockReadings} :
    (validateIntegrity V H cache e r).2 = .ok () ↔
      verifyEnvelope V H e = true ∧ shortNonce e.nonce = false ∧ e.nonce ∉ cache ∧
        e.verifyTimestamp r.wall maxSkewMs = true := by
  unfold validateIntegrity
  by_cases hv : verifyEnvelope V H e = true
  · by_cases hs : shortNonce e.nonce = true
    · simp [hv, hs]
    · by_cases hc : e.nonce ∈ cache
      · simp [hv, hs, hc]
      · by_cases ht : e.verifyTimestamp r.wall maxSkewMs = true
        · simp [hv, hs, hc, ht]
        · simp [hv, hs, hc, ht]
  · simp [hv]

/-- A refused envelope leaves the remembered nonces alone. -/
theorem validateIntegrity_error {cache : NonceCache} {e : IntentEnvelope} {r : ClockReadings}
    {message : String} (h : (validateIntegrity V H cache e r).2 = .error message) :
    (validateIntegrity V H cache e r).1 = cache := by
  unfold validateIntegrity at h ⊢
  split
  · rfl
  · split
    · rfl
    · split
      · rfl
      · split
        · rfl
        · next h1 h2 h3 h4 => simp [h1, h2, h3, h4] at h

end AgentIpc

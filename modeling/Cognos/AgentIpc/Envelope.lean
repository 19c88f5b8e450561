/-
# `Cognos.AgentIpc.Envelope` — the message of the agent IPC layer

`envelope.rs`, and the message `IntentEnvelope` of `cognos.proto`.  Seven fields of a
message are hashed, one behind the other, and the hash is what gets signed.

Times of day are milliseconds in an `i64`; its arithmetic wraps, as it does in a release
build.
-/
import Mathlib
import Cognos.Lib.Sha256
import Cognos.Lib.Uuid

namespace AgentIpc

structure AuditContext where
  auditId : String
  parentHash : String
  eventHash : String
  originatingHost : String
  originatingProcess : String
  createdAt : Int64

structure Signature where
  algorithm : String
  publicKey : List UInt8
  signatureBytes : List UInt8

structure IntentEnvelope where
  envelopeId : String
  intentId : String
  sourceAgent : String
  targetAgent : String
  capabilityToken : String
  actionGraphHash : String
  timestampUnixMs : Int64
  nonce : String
  sessionId : String
  userId : String
  intentType : String
  intentPayloadJson : String
  riskEstimate : Float32
  trustScore : Float32
  requiresHal : Bool
  requestedCapabilities : List String
  audit : Option AuditContext
  signature : Option Signature

/-- What `build_envelope` takes from around it: the time, three random ids, the host. -/
structure Surroundings where
  timestamp : Int64
  nonce : Uuid
  auditId : Uuid
  envelopeId : Uuid
  host : String
  process : String

/-- `compute_hash`. -/
def computeHash (H : Sha256) (data : List UInt8) : String := H.hex data

/-- A fully-formed envelope, not signed yet. -/
def buildEnvelope (H : Sha256) (w : Surroundings)
    (intentId sourceAgent targetAgent payloadJson : String) : IntentEnvelope where
  envelopeId := w.envelopeId.text
  intentId := intentId
  sourceAgent := sourceAgent
  targetAgent := targetAgent
  capabilityToken := ""
  actionGraphHash := ""
  timestampUnixMs := w.timestamp
  nonce := w.nonce.text
  sessionId := ""
  userId := ""
  intentType := "unknown"
  intentPayloadJson := payloadJson
  riskEstimate := 0.0
  trustScore := 0.0
  requiresHal := false
  requestedCapabilities := []
  audit := some
    { auditId := w.auditId.text
      parentHash := ""
      eventHash := computeHash H (Text.bytes
        (intentId ++ ":" ++ sourceAgent ++ ":" ++ targetAgent ++ ":" ++ toString w.timestamp))
      originatingHost := w.host
      originatingProcess := w.process
      createdAt := w.timestamp }
  signature := none

/-- `to_le_bytes` of an `i64`. -/
def toLeBytes (n : Int64) : List UInt8 :=
  (List.range 8).map fun i => UInt8.ofNat (n.toBitVec.toNat / 256 ^ i)

namespace IntentEnvelope

/-- The bytes `payload_hash` feeds to the hash. -/
def hashInput (e : IntentEnvelope) : List UInt8 :=
  Text.bytes e.intentId ++ Text.bytes e.sourceAgent ++ Text.bytes e.targetAgent ++
    Text.bytes e.intentPayloadJson ++ toLeBytes e.timestampUnixMs ++ Text.bytes e.nonce ++
    Text.bytes e.sessionId

/-- `payload_hash`. -/
def payloadHash (H : Sha256) (e : IntentEnvelope) : String := H.hex e.hashInput

/-- `verify_timestamp`, read at the time `now`. -/
def verifyTimestamp (e : IntentEnvelope) (now maxSkewMs : Int64) : Bool :=
  decide ((now - e.timestampUnixMs).abs ≤ maxSkewMs)

/-- The absolute value of the least `i64` is that number itself. -/
theorem toInt_abs (n : Int64) :
    n.abs.toInt = if n.toInt = -2 ^ 63 then -2 ^ 63 else |n.toInt| := by
  have habs : n.abs.toInt = n.toBitVec.abs.toInt := rfl
  have hmin : n.toBitVec = BitVec.intMin 64 ↔ n.toInt = -2 ^ 63 := by
    rw [← BitVec.toInt_inj]
    rfl
  rw [habs, BitVec.toInt_abs_eq_natAbs]
  by_cases h : n.toInt = -2 ^ 63
  · rw [if_pos (hmin.mpr h), if_pos h]
    rfl
  · rw [if_neg (fun hc => h (hmin.mp hc)), if_neg h]
    exact Int.natCast_natAbs _

/-- A time stamp passes at a time within the range of dates if it is within the skew of it, or
exactly `2 ^ 63` milliseconds before it, where the subtraction overflows. -/
theorem verifyTimestamp_iff {e : IntentEnvelope} {n k : Int64} (h0 : 0 ≤ n.toInt)
    (h1 : n.toInt < 2 ^ 53) (hskew : 0 ≤ k.toInt) (hskew' : k.toInt < 2 ^ 53) :
    e.verifyTimestamp n k = true ↔
      |n.toInt - e.timestampUnixMs.toInt| ≤ k.toInt ∨
        n.toInt - e.timestampUnixMs.toInt = 2 ^ 63 := by
  have hlt := e.timestampUnixMs.toInt_lt
  have hle := e.timestampUnixMs.le_toInt
  rw [verifyTimestamp, decide_eq_true_iff, Int64.le_iff_toInt_le, toInt_abs, Int64.toInt_sub,
    Int.bmod_def]
  simp only [abs_le]
  split
  · split
    · omega
    · rw [abs_le]
      omega
  · split
    · omega
    · rw [abs_le]
      omega

end IntentEnvelope

end AgentIpc

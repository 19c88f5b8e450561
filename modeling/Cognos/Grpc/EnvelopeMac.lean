/-
# `Cognos.Grpc.EnvelopeMac` — what the code of an envelope is of

`build_envelope` of the gRPC client and `sign_envelope` of the agents' `auth.py` sign

    trace_id|source|target|capability|payload

with nothing done about a bar in a field.  Both sign the same bytes (`pythonMessage_eq`).  An
envelope's bytes are its own when no header has a bar and the payload does not go on like a
header, a text up to its first bar (`bound_iff`); among envelopes whose headers have no bar,
every one is told from every other (`message_injective`).
-/
import Mathlib
import Cognos.Grpc.Token
import Cognos.Lib.Separated

namespace Grpc

/-- The signed wrapper around a payload. -/
structure Envelope where
  traceId : String
  source : String
  target : String
  capability : String
  payload : List UInt8
  signature : List UInt8
  sentAtNs : UInt64
  schema : String

/-- What is signed of an envelope. -/
structure EnvelopeFields where
  traceId : String
  source : String
  target : String
  capability : String
  payload : List UInt8
  deriving DecidableEq

namespace EnvelopeFields

open Token (bar)

/-- The updates of the code in `build_envelope`. -/
def rustMessage (x : EnvelopeFields) : List UInt8 :=
  [Text.bytes x.traceId, [bar], Text.bytes x.source, [bar], Text.bytes x.target, [bar],
    Text.bytes x.capability, [bar], x.payload].flatten

/-- The updates of the code in `sign_envelope`. -/
def pythonMessage (x : EnvelopeFields) : List UInt8 :=
  [Text.bytes x.traceId, [bar], Text.bytes x.source, [bar], Text.bytes x.target, [bar],
    Text.bytes x.capability, [bar], x.payload].flatten

variable (M : HmacSha256)

def buildEnvelope (signingSecret : String) (x : EnvelopeFields) (sentAtNs : UInt64) : Envelope where
  traceId := x.traceId
  source := x.source
  target := x.target
  capability := x.capability
  payload := x.payload
  signature := M.mac (Text.bytes signingSecret) x.rustMessage
  sentAtNs := sentAtNs
  schema := "v1"

def signEnvelope (secret : List UInt8) (x : EnvelopeFields) : List UInt8 :=
  M.mac secret x.pythonMessage

/-- The four headers, as bytes. -/
def headers (x : EnvelopeFields) : List (List UInt8) :=
  [Text.bytes x.traceId, Text.bytes x.source, Text.bytes x.target, Text.bytes x.capability]

theorem rustMessage_eq (x : EnvelopeFields) :
    x.rustMessage = Separated.join bar x.headers x.payload := by
  simp [rustMessage, headers]

theorem pythonMessage_eq (x : EnvelopeFields) : x.pythonMessage = x.rustMessage := rfl

/-- Both sign with the same code, under the same secret. -/
theorem signEnvelope_eq (signingSecret : String) (x : EnvelopeFields) (sentAtNs : UInt64) :
    signEnvelope M (Text.bytes signingSecret) x =
      (buildEnvelope M signingSecret x sentAtNs).signature := rfl

/-! ## Fields as texts -/

theorem isText_headers (x : EnvelopeFields) : ∀ h ∈ x.headers, Separated.IsText h := by
  intro h hmem
  simp only [headers, List.mem_cons, List.not_mem_nil, or_false] at hmem
  rcases hmem with rfl | rfl | rfl | rfl <;> exact Separated.isText_bytes _

theorem cut (l r : List UInt8) :
    Separated.IsText (l ++ bar :: r) → Separated.IsText l ∧ Separated.IsText r :=
  Separated.IsText.cut (by decide) l r

theorem headers_injective {x y : EnvelopeFields} (hheaders : x.headers = y.headers)
    (hpayload : x.payload = y.payload) : x = y := by
  obtain ⟨traceId, source, target, capability, payload⟩ := x
  obtain ⟨traceId', source', target', capability', payload'⟩ := y
  simp only [headers, List.cons.injEq, and_true] at hheaders
  obtain ⟨htrace, hsource, htarget, hcapability⟩ := hheaders
  rw [Text.bytes_injective htrace, Text.bytes_injective hsource, Text.bytes_injective htarget,
    Text.bytes_injective hcapability, show payload = payload' from hpayload]

/-- Four texts are the headers of an envelope. -/
theorem exists_headers {hs : List (List UInt8)} (hlen : hs.length = 4)
    (htext : ∀ h ∈ hs, Separated.IsText h) (payload : List UInt8) :
    ∃ y : EnvelopeFields, y.headers = hs ∧ y.payload = payload := by
  match hs, hlen with
  | [a, b, c, d], _ =>
      obtain ⟨a, rfl⟩ := htext a (by simp)
      obtain ⟨b, rfl⟩ := htext b (by simp)
      obtain ⟨c, rfl⟩ := htext c (by simp)
      obtain ⟨d, rfl⟩ := htext d (by simp)
      exact ⟨⟨a, b, c, d, payload⟩, rfl, rfl⟩

/-! ## Which envelopes are told apart -/

/-- No header has a bar. -/
def Plain (x : EnvelopeFields) : Prop :=
  '|' ∉ x.traceId.toList ∧ '|' ∉ x.source.toList ∧ '|' ∉ x.target.toList ∧
    '|' ∉ x.capability.toList

/-- The payload goes on like a header: a text, and a bar. -/
def GoesOn (x : EnvelopeFields) : Prop :=
  ∃ l r, x.payload = l ++ bar :: r ∧ Separated.IsText l

/-- No other envelope's message, in either language, is this one's in either language. -/
def Bound (x : EnvelopeFields) : Prop :=
  ∀ y, y ≠ x → x.rustMessage ≠ y.rustMessage ∧ x.rustMessage ≠ y.pythonMessage ∧
    x.pythonMessage ≠ y.rustMessage ∧ x.pythonMessage ≠ y.pythonMessage

theorem bar_mem_iff {s : String} : bar ∈ Text.bytes s ↔ '|' ∈ s.toList :=
  Separated.mem_bytes_iff (by decide) rfl

theorem plain_iff {x : EnvelopeFields} : x.Plain ↔ ∀ h ∈ x.headers, bar ∉ h := by
  simp only [Plain, headers, List.forall_mem_cons, bar_mem_iff, List.not_mem_nil, false_imp_iff,
    implies_true, and_true]

theorem bound_iff_rust {x : EnvelopeFields} :
    x.Bound ↔ ∀ y, y ≠ x → x.rustMessage ≠ y.rustMessage := by
  constructor
  · intro h y hne
    exact (h y hne).1
  · intro h y hne
    exact ⟨h y hne, h y hne, h y hne, h y hne⟩

/-- Plain headers and a payload that does not go on like one: the message gives all back. -/
theorem eq_of_message {x y : EnvelopeFields} (hplain : x.Plain) (hpayload : ¬ x.GoesOn)
    (h : x.rustMessage = y.rustMessage) : x = y := by
  rw [rustMessage_eq, rustMessage_eq] at h
  rcases Separated.eq_of_join_eq cut (plain_iff.mp hplain) y.isText_headers (le_refl 4) h
    with ⟨hheaders, hrest⟩ | ⟨l, r, hl, htext⟩
  · exact headers_injective hheaders hrest
  · exact absurd ⟨l, r, hl, htext⟩ hpayload

/-- Among envelopes with plain headers, each is told from every other. -/
theorem message_injective {x y : EnvelopeFields} (hx : x.Plain) (hy : y.Plain)
    (h : x.rustMessage = y.rustMessage) : x = y := by
  rw [rustMessage_eq, rustMessage_eq] at h
  obtain ⟨hheaders, hpayload⟩ :=
    Separated.join_injective (plain_iff.mp hx) (plain_iff.mp hy) rfl h
  exact headers_injective hheaders hpayload

/-- A bar in a header: another envelope has the same message. -/
theorem exists_message_of_not_plain {x : EnvelopeFields} (h : ¬ x.Plain) :
    ∃ y, y ≠ x ∧ x.rustMessage = y.rustMessage := by
  have hbar : ∃ f ∈ x.headers, bar ∈ f := by
    rw [plain_iff] at h
    push Not at h
    exact h
  obtain ⟨hs, q, hlen, htext, hne, hjoin⟩ :=
    Separated.exists_join_eq cut x.isText_headers hbar x.payload
  obtain ⟨y, hy, rfl⟩ := exists_headers hlen htext q
  refine ⟨y, ?_, ?_⟩
  · rintro rfl
    exact hne hy.symm
  · rw [rustMessage_eq, rustMessage_eq, hy, hjoin]

/-- A payload that goes on like a header: the capability can take its first part. -/
theorem exists_message_of_goesOn {x : EnvelopeFields} (h : x.GoesOn) :
    ∃ y, y ≠ x ∧ x.rustMessage = y.rustMessage := by
  obtain ⟨l, r, hpayload, s, rfl⟩ := h
  refine ⟨{ x with capability := x.capability ++ "|" ++ s, payload := r }, ?_, ?_⟩
  · intro heq
    have hlen := congrArg (fun y : EnvelopeFields => y.payload.length) heq
    rw [hpayload] at hlen
    simp only [List.length_append, List.length_cons] at hlen
    omega
  · have hlast : Text.bytes (x.capability ++ "|" ++ s) =
        Text.bytes x.capability ++ bar :: Text.bytes s := by
      rw [Text.bytes_append, Text.bytes_append, List.append_assoc]
      rfl
    have hjoin : Separated.join bar ([Text.bytes x.traceId, Text.bytes x.source,
        Text.bytes x.target] ++ [Text.bytes x.capability ++ bar :: Text.bytes s]) r =
          Separated.join bar ([Text.bytes x.traceId, Text.bytes x.source, Text.bytes x.target] ++
            [Text.bytes x.capability]) (Text.bytes s ++ bar :: r) :=
      Separated.concat_join_eq _ _ _ _
    rw [rustMessage_eq, rustMessage_eq, hpayload]
    simp only [headers, hlast]
    exact hjoin.symm

/-- The message of an envelope is its own exactly when no header has a bar and the payload does
not go on like a header. -/
theorem bound_iff {x : EnvelopeFields} : x.Bound ↔ x.Plain ∧ ¬ x.GoesOn := by
  rw [bound_iff_rust]
  constructor
  · intro h
    refine ⟨?_, ?_⟩
    · by_contra hplain
      obtain ⟨y, hne, heq⟩ := exists_message_of_not_plain hplain
      exact h y hne heq
    · intro hgoes
      obtain ⟨y, hne, heq⟩ := exists_message_of_goesOn hgoes
      exact h y hne heq
  · rintro ⟨hplain, hpayload⟩ y hne heq
    exact hne (eq_of_message hplain hpayload heq).symm

/-- Two envelopes, one with a bar in its trace id, and one message. -/
theorem not_bound_barred :
    ¬ Bound ⟨"a|b", "c", "d", "memory.read", [1]⟩ := by
  intro h
  exact (h ⟨"a", "b", "c", "d", Text.bytes "memory.read" ++ [bar, 1]⟩ (by decide)).1
    (by decide +kernel)

end EnvelopeFields

end Grpc

/-
# `Cognos.Ipc.ApprovalUi` — the wire helpers of the HAL UI socket

`approval_ui.rs`: frames of at most 4096 bytes in both directions, the dialog a human is
shown and the answer that goes back.  A stream is the bytes that arrive on it.
-/
import Cognos.Lib.Frame
import Cognos.Lib.Codecs

namespace Ipc

def maxUiFrameBytes : Nat := 4096

/-- Dialog pushed by HAL when a gate request needs human confirmation. -/
structure UiDialogRequest where
  type : String
  requestId : Uuid
  action : String
  target : String
  agent : String
  halScore : Float32
  isAiGenerated : Bool

/-- Human decision returned to HAL. -/
structure UiDialogResponse where
  approved : Bool
  notice : Option String

namespace UiDialogRequest

/-- The first group of the id. -/
def shortId (d : UiDialogRequest) : String := String.ofList (d.requestId.text.toList.take 8)

def levelLabel (d : UiDialogRequest) : String :=
  if d.type = "block_dialog" then "BLOCK" else "CONFIRM"

def names : List String :=
  ["type", "request_id", "action", "target", "agent", "hal_score", "is_ai_generated"]

/-- The derived reader. -/
def read {Time : Type} (K : Codecs Time) (v : Json.Value) : Option UiDialogRequest :=
  match Json.slots names v with
  | some [type, requestId, action, target, agent, halScore, isAiGenerated] => do
      let type ← Json.required Json.Value.asStr? type
      let requestId ← Json.required Uuid.readUuid? requestId
      let action ← Json.required Json.Value.asStr? action
      let target ← Json.required Json.Value.asStr? target
      let agent ← Json.required Json.Value.asStr? agent
      let halScore ← Json.required K.readF32? halScore
      let isAiGenerated ← Json.required Json.Value.asBool? isAiGenerated
      some { type, requestId, action, target, agent, halScore, isAiGenerated }
  | _ => none

end UiDialogRequest

/-- What goes wrong on the UI socket. -/
inductive UiError
  | read (e : Frame.ReadError)
  | payloadTooLarge
  | invalidJson
  deriving DecidableEq, Repr

/-- The text of an error that has one of its own. -/
def UiError.text? : UiError → Option String
  | .read .closed => none
  | .read (.oversize len) =>
      some ("frame length " ++ toString len ++ " exceeds max " ++ toString maxUiFrameBytes)
  | .payloadTooLarge => some "payload too large for UI frame"
  | .invalidJson => none

/-- Read a frame: its payload and the stream behind it. -/
def readFrame (stream : List UInt8) : Except UiError (List UInt8 × List UInt8) :=
  (Frame.read maxUiFrameBytes stream).mapError .read

/-- Write a frame: the stream with it. -/
def writeFrame (stream payload : List UInt8) : Except UiError (List UInt8) :=
  match Frame.write maxUiFrameBytes stream payload with
  | some stream => .ok stream
  | none => .error .payloadTooLarge

def readDialog {Time : Type} (K : Codecs Time) (stream : List UInt8) :
    Except UiError (UiDialogRequest × List UInt8) :=
  match readFrame stream with
  | .error e => .error e
  | .ok (payload, rest) =>
      match (Json.recordFromSlice UiDialogRequest.names payload).bind (UiDialogRequest.read K) with
      | some d => .ok (d, rest)
      | none => .error .invalidJson

/-- Frame after frame on one stream; what is refused leaves the stream as it was. -/
def writeFrames : List UInt8 → List (List UInt8) → List UInt8
  | stream, [] => stream
  | stream, p :: ps =>
      match writeFrame stream p with
      | .ok stream => writeFrames stream ps
      | .error _ => writeFrames stream ps

/-- Read `n` frames. -/
def readFrames : Nat → List UInt8 → Except UiError (List (List UInt8) × List UInt8)
  | 0, stream => .ok ([], stream)
  | n + 1, stream =>
      match readFrame stream with
      | .error e => .error e
      | .ok (p, stream) => (readFrames n stream).map fun (ps, rest) => (p :: ps, rest)

/-- `write_frame` takes the payload. -/
def Accepted (payload : List UInt8) : Prop := ∃ stream, writeFrame [] payload = .ok stream

instance (payload : List UInt8) : Decidable (Accepted payload) :=
  match h : writeFrame [] payload with
  | .ok stream => isTrue ⟨stream, h⟩
  | .error e => isFalse (by rintro ⟨stream, h'⟩; rw [h] at h'; cases h')

/-- The JSON of an answer; an absent notice is left out. -/
def UiDialogResponse.json (r : UiDialogResponse) : Json.Value :=
  Json.record [("approved", some (.bool r.approved)), ("notice", r.notice.map .str)]

def writeDialogResponse (stream : List UInt8) (r : UiDialogResponse) :
    Except UiError (List UInt8) :=
  writeFrame stream r.json.toVec

/-! ## What comes through -/

theorem accepted_iff {payload : List UInt8} :
    Accepted payload ↔ payload.length ≤ maxUiFrameBytes := by
  unfold Accepted writeFrame Frame.write
  constructor
  · rintro ⟨stream, h⟩
    by_contra hlen
    rw [if_pos (Nat.not_le.mp hlen)] at h
    cases h
  · intro hlen
    exact ⟨[] ++ Frame.send payload, by rw [if_neg (Nat.not_lt.mpr hlen)]⟩

theorem writeFrame_ok {payload : List UInt8} (h : payload.length ≤ maxUiFrameBytes)
    (stream : List UInt8) : writeFrame stream payload = .ok (stream ++ Frame.send payload) := by
  rw [writeFrame, Frame.write, if_neg (Nat.not_lt.mpr h)]

theorem writeFrames_eq (ps : List (List UInt8)) :
    ∀ stream, writeFrames stream ps = Frame.writeAll maxUiFrameBytes stream ps := by
  induction ps with
  | nil => intro stream; rfl
  | cons p ps ih =>
      intro stream
      unfold writeFrames Frame.writeAll writeFrame
      cases Frame.write maxUiFrameBytes stream p with
      | none => exact ih stream
      | some stream' => exact ih stream'

theorem readFrames_eq (n : Nat) :
    ∀ stream, readFrames n stream = (Frame.readAll maxUiFrameBytes n stream).mapError .read := by
  induction n with
  | zero => intro stream; rfl
  | succ n ih =>
      intro stream
      unfold readFrames Frame.readAll readFrame
      cases Frame.read maxUiFrameBytes stream with
      | error e => rfl
      | ok r =>
          obtain ⟨p, stream'⟩ := r
          show (readFrames n stream').map _ = _
          rw [ih stream']
          cases hr : Frame.readAll maxUiFrameBytes n stream' <;> simp [hr] <;> rfl

/-- What `write_frame` took on one stream, `read_frame` gives back, unchanged and in order. -/
theorem readFrames_writeFrames (ps : List (List UInt8)) (rest : List UInt8) :
    readFrames (ps.filter (Accepted ·)).length (writeFrames [] ps ++ rest)
      = .ok (ps.filter (Accepted ·), rest) := by
  have hacc : ps.filter (Accepted ·) = Frame.accepted maxUiFrameBytes ps := by
    simp only [Frame.accepted, accepted_iff]
  rw [hacc, writeFrames_eq, readFrames_eq, Frame.readAll_writeAll (by decide)]
  rfl

theorem readFrame_send {payload : List UInt8} (h : payload.length ≤ maxUiFrameBytes)
    (rest : List UInt8) : readFrame (Frame.send payload ++ rest) = .ok (payload, rest) := by
  rw [readFrame, Frame.read_send h (by decide)]
  rfl

theorem readFrame_send_oversize {payload : List UInt8} (h : maxUiFrameBytes < payload.length)
    (h32 : payload.length < 2 ^ 32) (rest : List UInt8) :
    readFrame (Frame.send payload ++ rest) = .error (.read (.oversize payload.length)) := by
  rw [readFrame, Frame.read_send_oversize h h32]
  rfl

end Ipc

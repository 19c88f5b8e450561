/-
# `Cognos.System.Dialog` — HAL's dialog frame and the UI's reader

HAL takes requests of up to 64 KiB and writes a dialog of whatever size comes out; the
UI reads frames of up to 4096 bytes.  The dialog carries three texts of the request, each
up to six times as long as it was.  Its size is `dialogSize`, and that is all there is to
agree about: a dialog that fits is read back field by field (`dialogsAgree_iff`).

    dialog_mem_iff     when HAL sends a dialog, and which
    read_dialog        a dialog's JSON gives the fields of the request
    size_dialog        the bytes of a dialog
-/
import Mathlib
import Cognos.Hal.FailClosed
import Cognos.Ipc.ApprovalUi

namespace System

open Hal Ipc

variable {Time : Type} {K : Codecs Time} {w : HalWorld Time} {bs : List UInt8}
  {req : GateRequest}

/-- The dialog of a request, at the level and with the score it is given. -/
def dialogOf (K : Codecs Time) (home : String) (req : GateRequest) : Json.Value :=
  dialogMessage K req (computeHalLevelV0 home req).2 (computeHalLevelV0 home req).1

/-- A request a human is asked about. -/
def Asked (home : String) (req : GateRequest) : Prop :=
  Admissible req ∧ (computeHalLevelV0 home req).1.asks = true

/-! ## When a dialog is sent -/

theorem dialog_not_mem_sendNotification (score : Float32) (frame : List UInt8) :
    Effect.dialog frame ∉ sendNotification K w req score := by
  unfold sendNotification
  split <;> simp

theorem dialog_mem_requestUiDecision (score : Float32) (level : HalLevel) (frame : List UInt8) :
    Effect.dialog frame ∈ (requestUiDecision K w req score level).1 ↔
      (∃ reply, w.ui = .listening reply) ∧
        frame = Frame.send (dialogMessage K req score level).toVec := by
  unfold requestUiDecision
  cases w.ui with
  | absent => simp
  | listening reply => simp

/-- HAL sends one dialog, for a request it asks about, if the UI listens. -/
theorem dialog_mem_iff (hr : Received K bs req) (frame : List UInt8) :
    Effect.dialog frame ∈ handleConnection K w bs ↔
      Asked w.home req ∧ (∃ reply, w.ui = .listening reply) ∧
        frame = Frame.send (dialogOf K w.home req).toVec := by
  rw [handleConnection_of_received hr]
  unfold handleRequest Asked Admissible dialogOf
  by_cases hk : isKnownAgent req.agent = true
  · rw [if_neg (not_not.mpr hk)]
    by_cases hm : req.action = "modify_hal"
    · rw [if_pos hm]
      simp [hm, auditEntry]
    · rw [if_neg hm]
      obtain ⟨level, score⟩ := computeHalLevelV0 w.home req
      cases level with
      | silent => simp [auditEntry, HalLevel.asks]
      | notify => simp [auditEntry, HalLevel.asks, dialog_not_mem_sendNotification]
      | confirm => simp [auditEntry, HalLevel.asks, hk, hm, dialog_mem_requestUiDecision]
      | block => simp [auditEntry, HalLevel.asks, hk, hm, dialog_mem_requestUiDecision]
  · rw [if_pos hk]
    simp [hk, auditEntry]

/-! ## The fields -/

/-- The dialog says what the request says. -/
def SameDialog (home : String) (req : GateRequest) (d : UiDialogRequest) : Prop :=
  d.requestId = req.requestId ∧ d.action = req.action ∧ d.target = req.target ∧
    d.agent = req.agent ∧ d.halScore = (computeHalLevelV0 home req).2 ∧
    d.isAiGenerated = req.isAiGenerated

theorem isFinite_of_asked {score : Float32} (h : score ∈ askedScores) : score.isFinite = true := by
  have hall : ∀ s ∈ askedScores, s.isFinite = true := by decide
  exact hall score h

/-- The reader finds every field of a dialog, though it looks for them in another order. -/
theorem read_dialogMessage {score : Float32} (hs : score.isFinite = true) (level : HalLevel) :
    UiDialogRequest.read K (dialogMessage K req score level) = some
      { type := if level = .block then "block_dialog" else "confirm_dialog"
        requestId := req.requestId
        action := req.action
        target := req.target
        agent := req.agent
        halScore := score
        isAiGenerated := req.isAiGenerated } := by
  unfold UiDialogRequest.read dialogMessage
  rw [Json.slots_record]
  case h => exact (by decide : ["action", "agent", "hal_score", "is_ai_generated", "request_id",
    "target", "type"].Nodup)
  simp [UiDialogRequest.names, List.lookup_cons, Json.required, Uuid.readUuid?, Json.Value.asStr?,
    Json.Value.asBool?, K.readF32?_wide hs]

theorem read_dialog (h : Asked w.home req) :
    ∃ d, UiDialogRequest.read K (dialogOf K w.home req) = some d ∧ SameDialog w.home req d := by
  obtain ⟨⟨hk, hm⟩, ha⟩ := h
  have hs := isFinite_of_asked (score_of_asks hk hm ha)
  exact ⟨_, read_dialogMessage hs _, rfl, rfl, rfl, rfl, rfl, rfl⟩

/-! ## The size -/

/-- The bytes of a request's dialog. -/
def dialogSize (home : String) (req : GateRequest) : Nat :=
  130 + Json.escapedLen req.action + Json.escapedLen req.agent + Json.escapedLen req.target
    + (if (computeHalLevelV0 home req).2 = 0.75 then 4 else 18)
    + (if req.isAiGenerated then 4 else 5)
    + (if (computeHalLevelV0 home req).1 = .block then 12 else 14)

/-- `0.75` is the one score with a short text. -/
theorem size_wide {score : Float32} (h : score ∈ askedScores) :
    (K.wide score).size = if score = 0.75 then 4 else 18 := by
  have hrow : ∀ s ∈ askedScores, ∃ r ∈ Codecs.table, r.1 = s ∧
      r.2.2.utf8ByteSize = if s = 0.75 then 4 else 18 := by decide
  obtain ⟨r, hr, rfl, htext⟩ := hrow score h
  rw [Codecs.wide, if_pos (isFinite_of_asked h), Json.Value.size_num, K.printWide_table r hr]
  exact htext

theorem size_dialog (h : Asked w.home req) :
    (dialogOf K w.home req).size = dialogSize w.home req := by
  obtain ⟨⟨hk, hm⟩, ha⟩ := h
  have hscore := size_wide (K := K) (score_of_asks hk hm ha)
  have hkeys : ((["action", "agent", "hal_score", "is_ai_generated", "request_id", "target",
      "type"]).map Json.escapedLen).sum = 55 := by decide
  have htype : ∀ level : HalLevel, Json.escapedLen (if level = .block then "block_dialog"
      else "confirm_dialog") = if level = .block then 12 else 14 := by
    intro level
    cases level <;> decide
  have hbool : ∀ b : Bool, (Json.Value.bool b).size = if b then 4 else 5 := by
    intro b
    cases b <;> rfl
  simp only [List.map_cons, List.map_nil, List.sum_cons, List.sum_nil] at hkeys
  simp only [dialogOf, dialogMessage, Json.record, List.filterMap_cons, List.filterMap_nil,
    Option.map_some]
  rw [Json.Value.size_obj (List.cons_ne_nil _ _)]
  simp only [List.map_cons, List.map_nil, List.sum_cons, List.sum_nil, List.length_cons,
    List.length_nil, Json.Value.size_str, Uuid.escapedLen_text, hscore, htype, hbool, dialogSize]
  omega

/-- A request HAL reads has a dialog whose length fits the four bytes of a frame. -/
theorem dialogSize_lt (hr : Received K bs req) (home : String) :
    dialogSize home req < 2 ^ 32 := by
  obtain ⟨payload, rest, hread, hreq⟩ := hr
  have hlen : payload.length ≤ maxRequestSize := Frame.length_of_read hread
  unfold decodeRequest at hreq
  rw [Option.bind_eq_some_iff] at hreq
  obtain ⟨v, hv, hreq⟩ := hreq
  obtain ⟨hagent, haction, htarget⟩ := GateRequest.read_strLe (Json.recordFromSlice_parts hv) hreq
  have h1 := Json.escapedLen_le req.agent
  have h2 := Json.escapedLen_le req.action
  have h3 := Json.escapedLen_le req.target
  have hmax : maxRequestSize = 65536 := rfl
  unfold dialogSize
  split <;> split <;> split <;> omega

/-! ## Agreement -/

/-- The UI reads every dialog HAL sends, with what the request says, and the frames written on
one stream are read in a row. -/
def DialogsAgree (K : Codecs Time) (w : HalWorld Time) (bs : List UInt8) : Prop :=
  (∀ req frame, Received K bs req → Effect.dialog frame ∈ handleConnection K w bs →
    ∃ d, readDialog K frame = .ok (d, []) ∧ SameDialog w.home req d) ∧
  ∀ ps rest, readFrames (ps.filter (Accepted ·)).length (writeFrames [] ps ++ rest)
    = .ok (ps.filter (Accepted ·), rest)

/-- HAL has a question, the UI listens, and the dialog does not fit. -/
def Overlong (K : Codecs Time) (w : HalWorld Time) (bs : List UInt8) : Prop :=
  ∃ req, Received K bs req ∧ Asked w.home req ∧ (∃ reply, w.ui = .listening reply) ∧
    maxUiFrameBytes < dialogSize w.home req

theorem readDialog_fits (h : Asked w.home req) (hsize : dialogSize w.home req ≤ maxUiFrameBytes) :
    ∃ d, readDialog K (Frame.send (dialogOf K w.home req).toVec) = .ok (d, []) ∧
      SameDialog w.home req d := by
  obtain ⟨d, hd, hsame⟩ := read_dialog (K := K) h
  have hlen : (dialogOf K w.home req).toVec.length ≤ maxUiFrameBytes := by
    rw [Json.length_toVec, size_dialog h]
    exact hsize
  have hframe := readFrame_send hlen []
  rw [List.append_nil] at hframe
  refine ⟨d, ?_, hsame⟩
  unfold readDialog
  rw [hframe]
  simp only [Json.recordFromSlice_toVec, Option.bind_some, hd]

/-- A dialog that is too long is refused by its length alone. -/
theorem readDialog_overlong (hr : Received K bs req) (h : Asked w.home req)
    (hsize : maxUiFrameBytes < dialogSize w.home req) :
    readDialog K (Frame.send (dialogOf K w.home req).toVec)
      = .error (.read (.oversize (dialogSize w.home req))) := by
  have hlen : (dialogOf K w.home req).toVec.length = dialogSize w.home req := by
    rw [Json.length_toVec, size_dialog h]
  have hframe := readFrame_send_oversize (hlen ▸ hsize) (hlen ▸ dialogSize_lt hr w.home) []
  rw [List.append_nil, hlen] at hframe
  unfold readDialog
  rw [hframe]

theorem Overlong.not_dialogsAgree (h : Overlong K w bs) : ¬ DialogsAgree K w bs := by
  obtain ⟨req, hr, hasked, hui, hsize⟩ := h
  rintro ⟨hagree, -⟩
  obtain ⟨d, hd, -⟩ := hagree req _ hr ((dialog_mem_iff hr _).mpr ⟨hasked, hui, rfl⟩)
  rw [readDialog_overlong hr hasked hsize] at hd
  cases hd

/-- The two sides agree unless a dialog is too long. -/
theorem dialogsAgree_iff (K : Codecs Time) (w : HalWorld Time) (bs : List UInt8) :
    DialogsAgree K w bs ↔ ¬ Overlong K w bs := by
  constructor
  · intro h hlong
    exact hlong.not_dialogsAgree h
  · intro h
    refine ⟨?_, readFrames_writeFrames⟩
    intro req frame hr hframe
    obtain ⟨hasked, hui, rfl⟩ := (dialog_mem_iff hr frame).mp hframe
    refine readDialog_fits hasked ?_
    by_contra hsize
    exact h ⟨req, hr, hasked, hui, Nat.not_le.mp hsize⟩

/-- Opening a file at the root whose name has `n` letters. -/
def openName (n : Nat) : GateRequest :=
  ⟨.nil, "file", "open_file", String.ofList ('/' :: List.replicate n 'a'), .null, false, none⟩

theorem escapedLen_openName (n : Nat) : Json.escapedLen (openName n).target = n + 1 := by
  have hslash : Json.escapedSize '/' = 1 := by decide
  have ha : Json.escapedSize 'a' = 1 := by decide
  simp only [openName, Json.escapedLen, String.toList_ofList, List.map_cons, List.map_replicate,
    List.sum_cons, List.sum_replicate_nat, hslash, ha]
  omega

theorem asked_openName (n : Nat) : Asked "/home/ana" (openName (n + 1)) := by
  have hadm : Admissible (openName (n + 1)) :=
    ⟨(by decide : isKnownAgent "file" = true), (by decide : "open_file" ≠ "modify_hal")⟩
  have hne : ¬ (openName (n + 1)).target = "" := by
    intro he
    have := congrArg String.toList he
    simp [openName] at this
  have hhome : Text.startsWith (openName (n + 1)).target "/home/ana" = false := by
    simp [openName, Text.startsWith, List.replicate_succ, List.isPrefixOf]
  have htilde : Text.startsWith (openName (n + 1)).target "~/" = false := by
    simp [openName, Text.startsWith, List.isPrefixOf]
  have hroot : Text.startsWith (openName (n + 1)).target "/" = true := by
    simp [openName, Text.startsWith]
  refine ⟨hadm, (asks_iff hadm.1 hadm.2).mpr (.inl ?_)⟩
  simp [isOutsideUserHome, hne, hhome, htilde, hroot]

def watching : HalWorld { s : String // Json.escapedLen s ≤ 40 } :=
  ⟨"/home/ana", false, .listening fun _ => [], none, fun _ => Codecs.midnight⟩

/-- A name of 4096 letters is short enough for HAL and too long for the UI. -/
theorem overlong_openName {n : Nat} (hlo : 4095 ≤ n) (hhi : n ≤ 60000) :
    Overlong Codecs.sample watching (Frame.send (openName (n + 1)).json.toVec) := by
  have hfile : Json.escapedLen (openName (n + 1)).agent = 4 :=
    (by decide : Json.escapedLen "file" = 4)
  have hopen : Json.escapedLen (openName (n + 1)).action = 9 :=
    (by decide : Json.escapedLen "open_file" = 9)
  have hmax : maxRequestSize = 65536 := rfl
  have hui : maxUiFrameBytes = 4096 := rfl
  refine ⟨openName (n + 1), received_send Codecs.sample rfl ?_, asked_openName n, ⟨_, rfl⟩, ?_⟩
  · rw [GateRequest.size_json, escapedLen_openName, hfile, hopen, hmax]
    show 134 + 4 + 9 + (n + 1 + 1) + Json.Value.null.size + (Json.Value.bool false).size
      + Json.Value.null.size ≤ 65536
    simp only [Json.Value.size_null, Json.Value.size_false]
    omega
  · unfold dialogSize
    rw [escapedLen_openName]
    omega

theorem not_dialogsAgree_openName :
    ¬ ∀ {Time : Type} (K : Codecs Time) (w : HalWorld Time) (bs : List UInt8),
      DialogsAgree K w bs := by
  intro h
  have hlong := overlong_openName (n := 4095) (by decide) (by decide)
  exact hlong.not_dialogsAgree (h _ _ _)

end System

/-
# `Cognos.Hal.ApprovalFlow` — one connection to the HAL socket

The second part of `approval_flow.rs`.  A connection is a function from the bytes that
arrive to what HAL does about them, in order: audit entries, notifications, the dialog,
the prompt, the response.  What HAL meets on the way is in its world: the UI socket with
whatever it answers to a dialog within the time limit, the line read from the terminal,
the clock.
-/
import Cognos.Hal.Gate
import Cognos.Lib.Codecs
import Cognos.Lib.Frame

namespace Hal

/-! ## The messages as JSON -/

/-- The variants of `GateReason` under their wire names. -/
def GateReason.wire : GateReason → String
  | .autoApproved => "auto_approved"
  | .userApproved => "user_approved"
  | .autoDenied => "auto_denied"
  | .userDenied => "user_denied"
  | .timeoutDeny => "timeout_deny"
  | .halError => "hal_error"

def GateReason.all : List GateReason :=
  [.autoApproved, .userApproved, .autoDenied, .userDenied, .timeoutDeny, .halError]

/-- A unit variant: its name, or an object of its name and `null`. -/
def GateReason.read : Json.Value → Option GateReason
  | .str s => all.find? (·.wire = s)
  | .obj [(s, .null)] => all.find? (·.wire = s)
  | _ => none

def GateRequest.names : List String :=
  ["request_id", "agent", "action", "target", "parameters", "is_ai_generated", "intent_id"]

def GateRequest.members (r : GateRequest) : List (String × Option Json.Value) :=
  [("request_id", some (.str r.requestId.text)), ("agent", some (.str r.agent)),
    ("action", some (.str r.action)), ("target", some (.str r.target)),
    ("parameters", some r.parameters), ("is_ai_generated", some (.bool r.isAiGenerated)),
    ("intent_id", some ((r.intentId.map fun id => .str id.text).getD .null))]

/-- The derived writer. -/
def GateRequest.json (r : GateRequest) : Json.Value := Json.record r.members

/-- The derived reader; `parameters` is a `Value`, one level down. -/
def GateRequest.read {Time : Type} (K : Codecs Time) (v : Json.Value) : Option GateRequest :=
  match Json.slots names v with
  | some [requestId, agent, action, target, parameters, isAiGenerated, intentId] => do
      let requestId ← Json.required Uuid.readUuid? requestId
      let agent ← Json.required Json.Value.asStr? agent
      let action ← Json.required Json.Value.asStr? action
      let target ← Json.required Json.Value.asStr? target
      let parameters ← Json.required (Json.Value.admitted K.inRange 126) parameters
      let isAiGenerated ← Json.required Json.Value.asBool? isAiGenerated
      let intentId ← Json.optional Uuid.readUuid? intentId
      some { requestId, agent, action, target, parameters, isAiGenerated, intentId }
  | _ => none

def GateResponse.names : List String :=
  ["request_id", "approved", "reason", "hal_score", "timestamp"]

def GateResponse.members {Time : Type} (K : Codecs Time) (r : GateResponse Time) :
    List (String × Option Json.Value) :=
  [("request_id", some (.str r.requestId.text)), ("approved", some (.bool r.approved)),
    ("reason", some (.str r.reason.wire)), ("hal_score", some (K.f32 r.halScore)),
    ("timestamp", some (.str (K.showTime r.timestamp)))]

def GateResponse.json {Time : Type} (K : Codecs Time) (r : GateResponse Time) : Json.Value :=
  Json.record (r.members K)

def GateResponse.read {Time : Type} (K : Codecs Time) (v : Json.Value) :
    Option (GateResponse Time) :=
  match Json.slots names v with
  | some [requestId, approved, reason, halScore, timestamp] => do
      let requestId ← Json.required Uuid.readUuid? requestId
      let approved ← Json.required Json.Value.asBool? approved
      let reason ← Json.required GateReason.read reason
      let halScore ← Json.required K.readF32? halScore
      let timestamp ← Json.required K.readTime? timestamp
      some { requestId, approved, reason, halScore, timestamp }
  | _ => none

/-! ## Round trips -/

/-- A request reads back when its parameters are a `Value` one level down. -/
theorem GateRequest.read_json {Time : Type} (K : Codecs Time) {r : GateRequest}
    (hp : r.parameters.admitted K.inRange 126 = some r.parameters) :
    GateRequest.read K r.json = some r := by
  have hnodup : GateRequest.names.Nodup := by decide
  have hid : Json.optional Uuid.readUuid? (some ((r.intentId.map fun id =>
      .str id.text).getD .null)) = some r.intentId := by
    cases r.intentId with
    | none => rfl
    | some id => simp [Json.optional, Uuid.readUuid?, Json.Value.asStr?]
  have hslots : Json.slots GateRequest.names r.json = some (r.members.map Prod.snd) :=
    Json.slots_record_self r.members hnodup
  unfold GateRequest.read
  rw [hslots]
  simp [members, Json.required, Uuid.readUuid?, Json.Value.asStr?, Json.Value.asBool?, hp, hid]

theorem GateReason.read_wire (r : GateReason) : GateReason.read (.str r.wire) = some r := by
  cases r <;> rfl

/-- A response with a finite score reads back. -/
theorem GateResponse.read_json {Time : Type} (K : Codecs Time) {r : GateResponse Time}
    (hs : r.halScore.isFinite = true) : GateResponse.read K (r.json K) = some r := by
  have hnodup : GateResponse.names.Nodup := by decide
  have hslots : Json.slots GateResponse.names (r.json K) = some ((r.members K).map Prod.snd) :=
    Json.slots_record_self (r.members K) hnodup
  unfold GateResponse.read
  rw [hslots]
  simp [members, Json.required, Uuid.readUuid?, Json.Value.asStr?, Json.Value.asBool?,
    GateReason.read_wire, K.readF32?_f32 hs]

/-- No text of a request that is read is longer than the longest string it was read from. -/
theorem GateRequest.read_strLe {Time : Type} {K : Codecs Time} {v : Json.Value} {r : GateRequest}
    {n : Nat} (hv : v.partsLe n) (h : GateRequest.read K v = some r) :
    r.agent.toList.length ≤ n ∧ r.action.toList.length ≤ n ∧ r.target.toList.length ≤ n := by
  unfold GateRequest.read at h
  split at h
  · next requestId agent action target parameters isAiGenerated intentId hslots =>
      have hle := Json.slots_strLe hv hslots
      simp only [bind, Option.bind_eq_some_iff] at h
      obtain ⟨_, -, agent', hagent, action', haction, target', htarget, _, -, _, -, _, -, hr⟩ := h
      cases hr
      refine ⟨hle agent (by simp) (.str agent') ?_, hle action (by simp) (.str action') ?_,
        hle target (by simp) (.str target') ?_⟩
      · exact Json.eq_str_of_required hagent
      · exact Json.eq_str_of_required haction
      · exact Json.eq_str_of_required htarget
  · cases h

/-- The bytes of a request. -/
theorem GateRequest.size_json (r : GateRequest) :
    r.json.size = 134 + Json.escapedLen r.agent + Json.escapedLen r.action
      + Json.escapedLen r.target + r.parameters.size + (Json.Value.bool r.isAiGenerated).size
      + ((r.intentId.map fun id => Json.Value.str id.text).getD .null).size := by
  have hkeys : (GateRequest.names.map Json.escapedLen).sum = 61 := by decide
  simp only [names, List.map_cons, List.map_nil, List.sum_cons, List.sum_nil] at hkeys
  simp only [json, Json.record, members, List.filterMap_cons, List.filterMap_nil, Option.map_some]
  rw [Json.Value.size_obj (List.cons_ne_nil _ _)]
  simp only [List.map_cons, List.map_nil, List.sum_cons, List.sum_nil, List.length_cons,
    List.length_nil, Json.Value.size_str, Uuid.escapedLen_text]
  omega

/-- A response with a short score fits a frame many times. -/
theorem GateResponse.length_json {Time : Type} {K : Codecs Time} {r : GateResponse Time}
    (h : (K.f32 r.halScore).size ≤ 4) : (r.json K).toVec.length ≤ 4096 := by
  have hkeys : (GateResponse.names.map Json.escapedLen).sum = 42 := by decide
  have hbool : (Json.Value.bool r.approved).size ≤ 5 := by cases r.approved <;> simp
  have hreason : Json.escapedLen r.reason.wire ≤ 13 := by cases r.reason <;> decide
  have htime := K.escapedLen_showTime r.timestamp
  simp only [names, List.map_cons, List.map_nil, List.sum_cons, List.sum_nil] at hkeys
  rw [Json.length_toVec]
  simp only [json, Json.record, members, List.filterMap_cons, List.filterMap_nil, Option.map_some]
  rw [Json.Value.size_obj (List.cons_ne_nil _ _)]
  simp only [List.map_cons, List.map_nil, List.sum_cons, List.sum_nil, List.length_cons,
    List.length_nil, Json.Value.size_str, Uuid.escapedLen_text]
  omega

/-! ## The world of a connection -/

/-- Maximum allowed size for a UI socket response payload. -/
def maxUiResponseSize : Nat := 4096

/-- Maximum size of a request. -/
def maxRequestSize : Nat := 64 * 1024

/-- The other end of the UI socket. -/
inductive UiPeer
  /-- Nobody listens. -/
  | absent
  /-- What it has sent back by the time limit, for the dialog frame it was sent. -/
  | listening (reply : List UInt8 → List UInt8)

/-- What a connection meets outside the process. -/
structure HalWorld (Time : Type) where
  home : String
  /-- Somebody listens on the notification socket. -/
  notifications : Bool
  ui : UiPeer
  /-- The line read from the terminal; `none` when reading fails. -/
  terminal : Option String
  clock : Nat → Time

/-- A line of the flow's own audit file. -/
structure FlowEntry (Time : Type) where
  ts : Time
  agent : String
  action : String
  target : String
  halScore : Float32
  halLevel : String
  outcome : String
  requestId : Uuid
  intentId : Option Uuid
  isAiGenerated : Bool
  note : String

/-- The members of the line, in the order of a `Map`; `rfc3339` writes the time. -/
def FlowEntry.members {Time : Type} (K : Codecs Time) (rfc3339 : Time → String)
    (e : FlowEntry Time) : List (String × Option Json.Value) :=
  [("action", some (.str e.action)), ("agent", some (.str e.agent)),
    ("hal_level", some (.str e.halLevel)), ("hal_score", some (K.wide e.halScore)),
    ("intent_id", some ((e.intentId.map fun id => .str id.text).getD .null)),
    ("is_ai_generated", some (.bool e.isAiGenerated)), ("note", some (.str e.note)),
    ("outcome", some (.str e.outcome)), ("request_id", some (.str e.requestId.text)),
    ("target", some (.str e.target)), ("ts", some (.str (rfc3339 e.ts)))]

/-- The line `audit_entry` appends. -/
def FlowEntry.line {Time : Type} (K : Codecs Time) (rfc3339 : Time → String) (e : FlowEntry Time) :
    String :=
  (Json.record (e.members K rfc3339)).print

/-- What HAL does to the outside. -/
inductive Effect (Time : Type)
  | audit (entry : FlowEntry Time)
  | notify (frame : List UInt8)
  | dialog (frame : List UInt8)
  | prompt (text : String)
  | respond (response : GateResponse Time)

section

variable {Time : Type} (K : Codecs Time) (w : HalWorld Time) (req : GateRequest)

/-! ## UI delegation -/

def HalLevel.label : HalLevel → String
  | .silent => "silent"
  | .notify => "notify"
  | .confirm => "confirm"
  | .block => "block"

/-- The toast for a request: its frame, if anybody listens. -/
def sendNotification (score : Float32) : List (Effect Time) :=
  let msg := Json.record
    [("action", some (.str req.action)), ("agent", some (.str req.agent)),
      ("hal_score", some (K.wide score)), ("target", some (.str req.target)),
      ("type", some (.str "notify"))]
  if w.notifications then [.notify (Frame.send msg.toVec)] else []

/-- The dialog for a request. -/
def dialogMessage (score : Float32) (level : HalLevel) : Json.Value :=
  Json.record
    [("action", some (.str req.action)), ("agent", some (.str req.agent)),
      ("hal_score", some (K.wide score)), ("is_ai_generated", some (.bool req.isAiGenerated)),
      ("request_id", some (.str req.requestId.text)), ("target", some (.str req.target)),
      ("type", some (.str (if level = .block then "block_dialog" else "confirm_dialog")))]

/-- An error while asking; everything else that goes wrong is a silent UI. -/
inductive UiFault
  | oversize (length : Nat)

def UiFault.text : UiFault → String
  | .oversize n => "UI response length " ++ toString n ++ " exceeds maximum of "
      ++ toString maxUiResponseSize ++ " bytes"

/-- The reply on the UI socket: `none` when it ends early, comes late or is not JSON. -/
def readUiReply (bs : List UInt8) : Except UiFault (Option Json.Value) :=
  match Frame.read maxUiResponseSize bs with
  | .error .closed => .ok none
  | .error (.oversize n) => .error (.oversize n)
  | .ok (payload, _) => .ok ((Json.fromSlice payload).bind (Json.Value.admitted K.inRange 127))

/-- `resp["approved"].as_bool().unwrap_or(false)`. -/
def replyApproves (reply : Json.Value) : Bool :=
  ((reply.get? "approved").bind Json.Value.asBool?).getD false

def userDecision (approved : Bool) : Bool × GateReason :=
  (approved, if approved then .userApproved else .userDenied)

/-- What the terminal shows. -/
def promptText (level : HalLevel) : String :=
  "\n[HAL] " ++ (if level = .block then "BLOCK" else "CONFIRM") ++ " Request\n  Action: "
    ++ req.action ++ "\n  Target: " ++ req.target ++ "\n  Agent:  " ++ req.agent
    ++ "\n  AI-generated: " ++ toString req.isAiGenerated ++ "\n"
    ++ (if level = .block then "\nType 'yes' to allow, anything else to deny: "
        else "\n[y/N] Allow? ")

/-- The line typed at the prompt is taken for a yes. -/
def terminalAccepts (line : String) : Bool :=
  Text.trim line == "yes" || Text.toLowercase (Text.trim line) == "y"

/-- Terminal fallback when no Wayland session is running. -/
def terminalFallback : Option (Bool × GateReason) :=
  w.terminal.map fun line => userDecision (terminalAccepts line)

/-- Request a confirm/block dialog from the shell UI. -/
def requestUiDecision (score : Float32) (level : HalLevel) :
    List (Effect Time) × Except UiFault (Option (Bool × GateReason)) :=
  match w.ui with
  | .listening reply =>
      let frame := Frame.send (dialogMessage K req score level).toVec
      ([.dialog frame],
        (readUiReply K (reply frame)).map (·.map fun v => userDecision (replyApproves v)))
  | .absent => ([.prompt (promptText req level)], .ok (terminalFallback w))

/-! ## Connection handler -/

def approveResponse {Time : Type} (id : Uuid) (reason : GateReason) (score : Float32) (now : Time) :
    GateResponse Time := ⟨id, true, reason, score, now⟩

def denyResponse {Time : Type} (id : Uuid) (reason : GateReason) (score : Float32) (now : Time) :
    GateResponse Time := ⟨id, false, reason, score, now⟩

def auditEntry (score : Float32) (level outcome note : String) : Effect Time :=
  .audit
    { ts := w.clock 0
      agent := req.agent
      action := req.action
      target := req.target
      halScore := score
      halLevel := level
      outcome := outcome
      requestId := req.requestId
      intentId := req.intentId
      isAiGenerated := req.isAiGenerated
      note := note }

/-- A decision, from the answer or from its absence. -/
def settle : Except UiFault (Option (Bool × GateReason)) → Bool × GateReason
  | .ok (some decision) => decision
  | .ok none | .error _ => (false, .timeoutDeny)

/-- A request that was read. -/
def handleRequest : List (Effect Time) :=
  if ¬ isKnownAgent req.agent then
    [auditEntry w req 1.0 "block" "auto_denied" "unknown_agent",
      .respond (denyResponse req.requestId .autoDenied 1.0 (w.clock 1))]
  else if req.action = "modify_hal" then
    [auditEntry w req 1.0 "block" "auto_denied" "modify_hal_attempt",
      .respond (denyResponse req.requestId .autoDenied 1.0 (w.clock 1))]
  else
    let (level, score) := computeHalLevelV0 w.home req
    match level with
    | .silent =>
        [auditEntry w req score "silent" "auto_approved" "",
          .respond (approveResponse req.requestId .autoApproved score (w.clock 1))]
    | .notify =>
        sendNotification K w req score ++
          [auditEntry w req score "notify" "auto_approved" "",
            .respond (approveResponse req.requestId .autoApproved score (w.clock 1))]
    | .confirm | .block =>
        let (asked, result) := requestUiDecision K w req score level
        let (approved, reason) := settle result
        asked ++
          [auditEntry w req score level.label (if approved then "approved" else "denied") "",
            .respond ⟨req.requestId, approved, reason, score, w.clock 1⟩]

/-- The request in a payload. -/
def decodeRequest (payload : List UInt8) : Option GateRequest :=
  (Json.recordFromSlice GateRequest.names payload).bind (GateRequest.read K)

/-- A connection on which `bs` arrives. -/
def handleConnection (bs : List UInt8) : List (Effect Time) :=
  match Frame.read maxRequestSize bs with
  | .error .closed => []
  | .error (.oversize _) => [.respond (denyResponse .nil .halError 1.0 (w.clock 0))]
  | .ok (payload, _) =>
      match decodeRequest K payload with
      | none => [.respond (denyResponse .nil .halError 1.0 (w.clock 0))]
      | some req => handleRequest K w req

end

/-- The bytes written back to the agent. -/
def responseBytes {Time : Type} (K : Codecs Time) (effects : List (Effect Time)) : List UInt8 :=
  effects.flatMap fun
    | .respond r => Frame.send (r.json K).toVec
    | _ => []

end Hal

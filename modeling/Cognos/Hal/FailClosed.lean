/-
# `Cognos.Hal.FailClosed` — what an approval on the socket takes

An approval is `Warranted` by a request from a known agent that is not an attempt on HAL
and that either needs no human or was accepted by one: on the UI by a JSON object with
`approved` set, at the terminal by the rule the prompt prints.  Every exit of a
connection is traced back to one of these; the one approval that is not warranted is a
`ShortYes`, a `y` typed at the prompt that wants `yes`.

    approves_iff      which connections end in an approval
    failClosed_iff    they are warranted unless a short yes was typed
-/
import Cognos.Hal.ApprovalFlow

namespace Hal

variable {Time : Type} {K : Codecs Time} {w : HalWorld Time} {bs : List UInt8}
  {req : GateRequest}

/-! ## What is promised -/

/-- A response with `approved = true` is written. -/
def Approves (effects : List (Effect Time)) : Prop :=
  ∃ r, Effect.respond r ∈ effects ∧ r.approved = true

/-- The bytes carry a request HAL can read. -/
def Received (K : Codecs Time) (bs : List UInt8) (req : GateRequest) : Prop :=
  ∃ payload rest, Frame.read maxRequestSize bs = .ok (payload, rest) ∧
    decodeRequest K payload = some req

/-- The rule the prompt prints: `yes` in full where it says so, else also `y`. -/
def PromptAccepts (level : HalLevel) (line : String) : Prop :=
  Text.trim line = "yes" ∨ (level ≠ .block ∧ Text.toLowercase (Text.trim line) = "y")

/-- The UI replies to the dialog with an object whose `approved` is `true`. -/
def UiAccepts (K : Codecs Time) (w : HalWorld Time) (req : GateRequest) : Prop :=
  let (level, score) := computeHalLevelV0 w.home req
  ∃ reply fs, w.ui = .listening reply ∧
    readUiReply K (reply (Frame.send (dialogMessage K req score level).toVec))
      = .ok (some (.obj fs)) ∧
    (Json.Value.obj fs).get? "approved" = some (.bool true)

/-- Nobody listens on the UI socket, and this line is typed. -/
def Typed (w : HalWorld Time) (line : String) : Prop :=
  w.ui = .absent ∧ w.terminal = some line

/-- HAL may look at the request at all. -/
def Admissible (req : GateRequest) : Prop :=
  isKnownAgent req.agent = true ∧ req.action ≠ "modify_hal"

/-- What an approval takes. -/
def Warranted (K : Codecs Time) (w : HalWorld Time) (bs : List UInt8) : Prop :=
  ∃ req, Received K bs req ∧ Admissible req ∧
    ((computeHalLevelV0 w.home req).1.asks = false ∨ UiAccepts K w req ∨
      ∃ line, Typed w line ∧ PromptAccepts (computeHalLevelV0 w.home req).1 line)

def FailClosed (K : Codecs Time) (w : HalWorld Time) (bs : List UInt8) : Prop :=
  Approves (handleConnection K w bs) → Warranted K w bs

/-- A `y` is typed where the prompt wants `yes`. -/
def ShortYes (K : Codecs Time) (w : HalWorld Time) (bs : List UInt8) : Prop :=
  ∃ req line, Received K bs req ∧ Admissible req ∧ (computeHalLevelV0 w.home req).1 = .block ∧
    Typed w line ∧ Text.trim line ≠ "yes" ∧ Text.toLowercase (Text.trim line) = "y"

/-! ## The exits of a connection -/

theorem Received.unique {req' : GateRequest} (h : Received K bs req) (h' : Received K bs req') :
    req = req' := by
  obtain ⟨payload, rest, hread, hreq⟩ := h
  obtain ⟨payload', rest', hread', hreq'⟩ := h'
  rw [hread] at hread'
  cases hread'
  rw [hreq] at hreq'
  exact Option.some.inj hreq'

theorem handleConnection_of_received (h : Received K bs req) (w : HalWorld Time) :
    handleConnection K w bs = handleRequest K w req := by
  obtain ⟨payload, rest, hread, hreq⟩ := h
  unfold handleConnection
  rw [hread]
  simp only [hreq]

theorem not_approves_deny (id : Uuid) (reason : GateReason) (score : Float32) (now : Time) :
    ¬ Approves [Effect.respond (denyResponse id reason score now)] := by
  rintro ⟨r, hr, ha⟩
  cases List.mem_singleton.mp hr
  exact absurd ha Bool.false_ne_true

/-- Without a request that can be read there is no approval. -/
theorem received_of_approves (h : Approves (handleConnection K w bs)) :
    ∃ req, Received K bs req := by
  unfold handleConnection at h
  split at h
  · obtain ⟨r, hr, -⟩ := h
    cases hr
  · exact absurd h (not_approves_deny _ _ _ _)
  · next payload rest hread =>
      split at h
      · exact absurd h (not_approves_deny _ _ _ _)
      · next req hreq => exact ⟨req, payload, rest, hread, hreq⟩

/-- Whatever comes before it, the last effect decides. -/
theorem approves_append_respond {p : List (Effect Time)} {e : FlowEntry Time}
    {r : GateResponse Time} (hb : ∀ r', Effect.respond r' ∉ p) :
    Approves (p ++ [.audit e, .respond r]) ↔ r.approved = true := by
  constructor
  · rintro ⟨r', hr', ha⟩
    rcases List.mem_append.mp hr' with h | h
    · exact absurd h (hb r')
    · rcases List.mem_cons.mp h with h | h
      · cases h
      · cases List.mem_singleton.mp h
        exact ha
  · intro ha
    exact ⟨r, List.mem_append_right _ (.tail _ (.head _)), ha⟩

theorem respond_not_mem_sendNotification (score : Float32) (r : GateResponse Time) :
    Effect.respond r ∉ sendNotification K w req score := by
  unfold sendNotification
  split <;> simp

theorem respond_not_mem_requestUiDecision (score : Float32) (level : HalLevel)
    (r : GateResponse Time) : Effect.respond r ∉ (requestUiDecision K w req score level).1 := by
  unfold requestUiDecision
  split <;> simp

/-- The answer that was asked for. -/
def answer (K : Codecs Time) (w : HalWorld Time) (req : GateRequest) : Bool × GateReason :=
  let (level, score) := computeHalLevelV0 w.home req
  settle (requestUiDecision K w req score level).2

/-- A request ends in an approval when it is admissible and no human is needed or one agrees. -/
theorem approves_handleRequest :
    Approves (handleRequest K w req) ↔ Admissible req ∧
      ((computeHalLevelV0 w.home req).1.asks = false ∨ (answer K w req).1 = true) := by
  have denied : ∀ e : FlowEntry Time, ∀ r : GateResponse Time, r.approved = false →
      ¬ Approves [Effect.audit e, .respond r] := by
    intro e r hr h
    have := (approves_append_respond (p := []) (by simp)).mp h
    rw [hr] at this
    cases this
  unfold handleRequest Admissible answer
  by_cases hk : isKnownAgent req.agent = true
  · rw [if_neg (not_not.mpr hk)]
    by_cases hm : req.action = "modify_hal"
    · rw [if_pos hm]
      exact iff_of_false (denied _ _ rfl) (fun h => h.1.2 hm)
    · rw [if_neg hm]
      have hadm : (isKnownAgent req.agent = true ∧ req.action ≠ "modify_hal") ↔ True :=
        iff_true_intro ⟨hk, hm⟩
      rw [hadm, true_and]
      obtain ⟨level, score⟩ := computeHalLevelV0 w.home req
      cases level with
      | silent =>
          refine iff_of_true ?_ (.inl rfl)
          exact (approves_append_respond (p := []) (by simp)).mpr rfl
      | notify =>
          refine iff_of_true ?_ (.inl rfl)
          exact (approves_append_respond (respond_not_mem_sendNotification score)).mpr rfl
      | confirm =>
          refine (approves_append_respond (respond_not_mem_requestUiDecision score _)).trans ?_
          exact ⟨.inr, fun h => h.resolve_left nofun⟩
      | block =>
          refine (approves_append_respond (respond_not_mem_requestUiDecision score _)).trans ?_
          exact ⟨.inr, fun h => h.resolve_left nofun⟩
  · rw [if_pos hk]
    exact iff_of_false (denied _ _ rfl) (fun h => hk h.1.1)

/-! ## The answer -/

theorem terminalAccepts_iff (line : String) :
    terminalAccepts line = true ↔
      Text.trim line = "yes" ∨ Text.toLowercase (Text.trim line) = "y" := by
  simp [terminalAccepts]

theorem replyApproves_iff (v : Json.Value) :
    replyApproves v = true ↔
      ∃ fs, v = .obj fs ∧ (Json.Value.obj fs).get? "approved" = some (.bool true) := by
  unfold replyApproves
  constructor
  · intro h
    cases v with
    | obj fs =>
        refine ⟨fs, rfl, ?_⟩
        cases hg : (Json.Value.obj fs).get? "approved" with
        | none => simp [hg] at h
        | some v => cases v <;> simp_all [Json.Value.asBool?]
    | _ => cases h
  · rintro ⟨fs, rfl, h⟩
    rw [h]
    rfl

/-- Somebody agrees when the UI accepts, or nobody listens and the line typed is taken. -/
theorem answer_iff :
    (answer K w req).1 = true ↔ UiAccepts K w req ∨
      ∃ line, Typed w line ∧ terminalAccepts line = true := by
  unfold answer UiAccepts Typed requestUiDecision
  obtain ⟨level, score⟩ := computeHalLevelV0 w.home req
  cases hui : w.ui with
  | absent =>
      cases hline : w.terminal with
      | none => simp [terminalFallback, hline, settle]
      | some line => simp [terminalFallback, hline, settle, userDecision]
  | listening reply =>
      cases hr : readUiReply K (reply (Frame.send (dialogMessage K req score level).toVec)) with
      | error e => simp [hr, Except.map, settle]
      | ok v? =>
          cases v? with
          | none => simp [hr, Except.map, settle]
          | some v => simp [hr, Except.map, settle, userDecision, replyApproves_iff]

/-- The connections that end in an approval. -/
theorem approves_iff :
    Approves (handleConnection K w bs) ↔ ∃ req, Received K bs req ∧ Admissible req ∧
      ((computeHalLevelV0 w.home req).1.asks = false ∨ UiAccepts K w req ∨
        ∃ line, Typed w line ∧ terminalAccepts line = true) := by
  constructor
  · intro h
    obtain ⟨req, hr⟩ := received_of_approves h
    rw [handleConnection_of_received hr, approves_handleRequest, answer_iff] at h
    exact ⟨req, hr, h⟩
  · rintro ⟨req, hr, h⟩
    rw [handleConnection_of_received hr, approves_handleRequest, answer_iff]
    exact h

/-! ## The response -/

/-- The response to a request that was read. -/
def responseTo (K : Codecs Time) (w : HalWorld Time) (req : GateRequest) : GateResponse Time :=
  if ¬ isKnownAgent req.agent ∨ req.action = "modify_hal" then
    denyResponse req.requestId .autoDenied 1.0 (w.clock 1)
  else
    let (level, score) := computeHalLevelV0 w.home req
    if level.asks then ⟨req.requestId, (answer K w req).1, (answer K w req).2, score, w.clock 1⟩
    else approveResponse req.requestId .autoApproved score (w.clock 1)

/-- A request that was read gets one response. -/
theorem responseBytes_handleRequest (K : Codecs Time) (w : HalWorld Time) (req : GateRequest) :
    responseBytes K (handleRequest K w req) = Frame.send ((responseTo K w req).json K).toVec := by
  have hnotify : ∀ score, responseBytes K (sendNotification K w req score) = [] := by
    intro score
    unfold sendNotification
    split <;> rfl
  have hasked : ∀ score level, responseBytes K (requestUiDecision K w req score level).1 = [] := by
    intro score level
    unfold requestUiDecision
    split <;> rfl
  have hlast : ∀ es e (r : GateResponse Time), responseBytes K es = [] →
      responseBytes K (es ++ [Effect.audit e, .respond r]) = Frame.send (r.json K).toVec := by
    intro es e r hes
    show List.flatMap _ (es ++ _) = _
    rw [List.flatMap_append]
    show responseBytes K es ++ (Frame.send (r.json K).toVec ++ []) = _
    rw [hes, List.nil_append, List.append_nil]
  unfold handleRequest responseTo answer
  by_cases hk : isKnownAgent req.agent = true
  · by_cases hm : req.action = "modify_hal"
    · rw [if_neg (not_not.mpr hk), if_pos hm, if_pos (.inr hm)]
      exact hlast [] _ _ rfl
    · rw [if_neg (not_not.mpr hk), if_neg hm, if_neg (not_or.mpr ⟨not_not.mpr hk, hm⟩)]
      obtain ⟨level, score⟩ := computeHalLevelV0 w.home req
      cases level with
      | silent => exact hlast [] _ _ rfl
      | notify => exact hlast _ _ _ (hnotify score)
      | confirm => exact hlast _ _ _ (hasked score .confirm)
      | block => exact hlast _ _ _ (hasked score .block)
  · rw [if_pos hk, if_pos (.inl hk)]
    exact hlast [] _ _ rfl

theorem responseTo_approved :
    (responseTo K w req).approved = true ↔ Admissible req ∧
      ((computeHalLevelV0 w.home req).1.asks = false ∨ (answer K w req).1 = true) := by
  unfold responseTo Admissible
  by_cases hk : isKnownAgent req.agent = true
  · by_cases hm : req.action = "modify_hal"
    · rw [if_pos (.inr hm)]
      exact iff_of_false Bool.false_ne_true (fun h => h.1.2 hm)
    · rw [if_neg (not_or.mpr ⟨not_not.mpr hk, hm⟩)]
      simp only [hk, hm, ne_eq, not_false_eq_true, and_self, true_and]
      cases (computeHalLevelV0 w.home req).1.asks <;> simp [approveResponse]
  · rw [if_pos (.inl hk)]
    exact iff_of_false Bool.false_ne_true (fun h => hk h.1.1)

/-- Every score HAL answers with is one of a few constants. -/
theorem responseTo_score : ∃ r ∈ Codecs.table, r.1 = (responseTo K w req).halScore := by
  have hscores : ∀ s ∈ ([1.0, 0.9, 0.85, 0.75, 0.65, 0.4, 0.15] : List Float32),
      ∃ r ∈ Codecs.table, r.1 = s := by decide +kernel
  have hlevel : (computeHalLevelV0 w.home req).2
      ∈ ([1.0, 0.9, 0.85, 0.75, 0.65, 0.4, 0.15] : List Float32) := by
    unfold computeHalLevelV0
    split_ifs <;> simp
  refine hscores _ ?_
  unfold responseTo
  split
  · exact .head _
  · generalize computeHalLevelV0 w.home req = graded at hlevel
    obtain ⟨level, score⟩ := graded
    cases level <;> exact hlevel

/-! ## Failing closed -/

/-- A short yes is taken, and nothing warrants it. -/
theorem ShortYes.not_failClosed (h : ShortYes K w bs) : ¬ FailClosed K w bs := by
  obtain ⟨req, line, hr, hadm, hblock, htyped, hyes, hy⟩ := h
  intro hclosed
  have happroved : Approves (handleConnection K w bs) := by
    rw [approves_iff]
    exact ⟨req, hr, hadm, .inr (.inr ⟨line, htyped, (terminalAccepts_iff line).mpr (.inr hy)⟩)⟩
  obtain ⟨req', hr', -, hwhy⟩ := hclosed happroved
  obtain rfl := hr.unique hr'
  rcases hwhy with hasks | ⟨reply, fs, hui, -⟩ | ⟨line', htyped', hyes' | ⟨hlevel, -⟩⟩
  · rw [hblock] at hasks
    cases hasks
  · rw [htyped.1] at hui
    cases hui
  · have hline : line = line' := Option.some.inj (htyped.2.symm.trans htyped'.2)
    exact hyes (hline ▸ hyes')
  · exact hlevel hblock

/-- Every other approval is warranted. -/
theorem failClosed_of_not_shortYes (h : ¬ ShortYes K w bs) : FailClosed K w bs := by
  intro happroved
  obtain ⟨req, hr, hadm, hwhy⟩ := approves_iff.mp happroved
  refine ⟨req, hr, hadm, ?_⟩
  rcases hwhy with hasks | hui | ⟨line, htyped, hacc⟩
  · exact .inl hasks
  · exact .inr (.inl hui)
  · refine .inr (.inr ⟨line, htyped, ?_⟩)
    rcases (terminalAccepts_iff line).mp hacc with hyes | hy
    · exact .inl hyes
    · by_cases hyes : Text.trim line = "yes"
      · exact .inl hyes
      · refine .inr ⟨?_, hy⟩
        intro hblock
        exact h ⟨req, line, hr, hadm, hblock, htyped, hyes, hy⟩

/-- A connection fails closed unless a short yes is typed on it. -/
theorem failClosed_iff (K : Codecs Time) (w : HalWorld Time) (bs : List UInt8) :
    FailClosed K w bs ↔ ¬ ShortYes K w bs :=
  ⟨fun h hy => hy.not_failClosed h, failClosed_of_not_shortYes⟩

/-- A request that fits arrives as it was written. -/
theorem received_send (K : Codecs Time) {r : GateRequest}
    (hp : r.parameters.admitted K.inRange 126 = some r.parameters)
    (hsize : r.json.size ≤ maxRequestSize) :
    Received K (Frame.send r.json.toVec) r := by
  have hlen : r.json.toVec.length ≤ maxRequestSize := by
    rw [Json.length_toVec]
    exact hsize
  refine ⟨r.json.toVec, [], ?_, ?_⟩
  · have hread := Frame.read_send hlen (by decide) []
    rwa [List.append_nil] at hread
  · rw [decodeRequest, Json.recordFromSlice_toVec]
    exact GateRequest.read_json K hp

/-- The file agent opens the password file; no UI; `y` is typed at the `yes` prompt. -/
def openPasswd : GateRequest :=
  ⟨.nil, "file", "open_file", "/etc/passwd", .null, false, none⟩

def yTyped : HalWorld { s : String // Json.escapedLen s ≤ 40 } :=
  ⟨"/home/ana", false, .absent, some "y\n", fun _ => Codecs.midnight⟩

theorem not_failClosed_y :
    ¬ ∀ {Time : Type} (K : Codecs Time) (w : HalWorld Time) (bs : List UInt8),
      FailClosed K w bs := by
  intro h
  have hreceived : Received Codecs.sample (Frame.send openPasswd.json.toVec) openPasswd :=
    received_send Codecs.sample rfl (by rw [GateRequest.size_json]; decide)
  have hshort : ShortYes Codecs.sample yTyped (Frame.send openPasswd.json.toVec) :=
    ⟨openPasswd, "y\n", hreceived, ⟨by decide, by decide⟩, by decide, ⟨rfl, rfl⟩, by decide,
      by decide⟩
  exact hshort.not_failClosed (h _ _ _)

end Hal

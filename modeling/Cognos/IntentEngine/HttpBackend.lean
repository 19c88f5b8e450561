/-
# `Cognos.IntentEngine.HttpBackend` — the model behind a server

`http_llama.rs`, `http_vllm.rs`, `mock_llama.rs` and the prompt of `prompt.rs`.  Both servers
are asked in the same way: a completion that the validator rejects is asked for once more, with
what was wrong with it, and what fails on the way has an error of its own.  The daemon puts the
keyword backend behind either of them, and behind the mock.

    parse_over       a parser over a server never fails on the schema, and the server is told
                     the error that the parser would report
    status_handle    whatever the server does, the daemon answers with an intent

What the server does is given by the requests it has seen: the last of them ends as `serve`
says of all.  The body of a reply is decoded outside.
-/
import Mathlib
import Cognos.IntentEngine.AcceptedIntents
import Cognos.IntentEngine.KeywordAnswers
import Cognos.IntentEngine.Service

namespace IntentEngine

open Json (Value Reader NumLit)

/-! ## The prompt -/

/-- The fixed part: the role, the contract and the rules. -/
def systemPrompt : String :=
  "You are the COGNOS/OS intent parser. Output EXACTLY ONE JSON object (IntentSchema). " ++
  "JSON only — no prose, no fences.\n\nSCHEMA (all *_score/confidence/*_estimate " ++
  "floats in [0.0, 1.0]):\n- intent_id: UUID v4; raw_input: verbatim user text; goal: " ++
  "canonical string; domain: string|null; confidence; ambiguity_score; risk_estimate; " ++
  "required_context[].\n- " ++
  "candidate_actions[\x7baction,target,confidence,recency_score\x7d] — concrete steps; " ++
  "MUST be [] for out_of_scope, await_input, empty/noise; never invent actions.\n- " ++
  "disambiguation_required; disambiguation_question|null; session_context object; " ++
  "hal_pre_score; escalate_to_cloud.\n\nRULES:\n- ambiguity_score>0.6 => " ++
  "disambiguation_required=true, disambiguation_question set, >=2 candidate_actions.\n" ++
  "- ambiguity_score<=0.6 => disambiguation_required=false, " ++
  "disambiguation_question=null.\n- confidence<0.75 => escalate_to_cloud=true when " ++
  "unsure; else false unless cloud_reasoning in required_context.\n- " ++
  "Deletes/format/overwrite => high risk_estimate and hal_pre_score.\n\nGOALS (pick " ++
  "one): open_file, search_files, open_workspace, package_and_convert, code_task, " ++
  "network_download, network_send, delete_path, out_of_scope, await_input, create_dir, " ++
  "install_package.\n\nMULTI-STEP (\"then\"/\"puis\"/\"and run\"): composite goal " ++
  "(package_and_convert or code_task) + >=2 candidate_actions (one per step); " ++
  "disambiguation_required=false if clear.\n\nDISAMBIGUATION: vague project reference " ++
  "+ 2+ plausible recent_files => ambiguity_score>0.6, disambiguation_required=true, " ++
  "question, >=2 open_files candidates.\n\nEDGE: \"\"=>await_input+[] (NOT " ++
  "out_of_scope); noise/gibberish=>await_input; chit-chat=>out_of_scope+[]; " ++
  "download=>network_download; email/send=>network_send.\n\nEXAMPLES:\n- \"install " ++
  "ffmpeg puis convertis ma vidéo\" => package_and_convert; install_package/ffmpeg; " ++
  "convert_media/~/media/clip.mov.\n- \"open the robotics project\" + " ++
  "[motor.py,pid.py] => open_workspace; ambiguity>0.6; disambiguation_required=true; " ++
  "question; 2 open_files targets.\n- \"ouvre le projet robotique\" + " ++
  "[bras.py,rover.py] => même règle (open_workspace + disambiguation)."

/-- The prompt for an input under a session. -/
def buildPrompt (input : String) (ctx : SessionContext) : String :=
  let domain := ctx.lastActiveDomain.getD "none"
  let files :=
    if ctx.lastActiveFiles = [] then "none" else String.intercalate ", " ctx.lastActiveFiles
  let idle := ctx.timeSinceLastSession.getD "unknown"
  systemPrompt ++ "\n\nSESSION CONTEXT:\n- active_domain: " ++ domain ++ "\n- recent_files: " ++
    files ++ "\n- current_time: " ++ ctx.currentTime ++ "\n- time_since_last_session: " ++ idle ++
    "\n\nUSER INPUT:\n" ++ input ++ "\n\nRespond with the JSON object now."

/-- The prompt once more, with what the validator said. -/
def correctivePrompt (prompt schemaErr : String) : String :=
  prompt ++ "\n\n[CORRECTION] Your previous response was rejected by the schema validator: " ++
    schemaErr ++ ". Output ONLY a corrected JSON object that satisfies every field and its " ++
    "bounds. No prose, no code fences."

/-! ## One request -/

/-- What is asked of a server. -/
structure Completion where
  url : String
  prompt : String
  model : String
  temperature : Float32
  constraint : String × Value
  limit : String × Nat
  flags : List (String × Bool)

/-- How a request ends.  A reply has a body, if that can be read as a text, and what it is
decoded to. -/
inductive HttpOutcome (ρ : Type)
  | timeout (e : String)
  | unreachable (e : String)
  | failed (e : String)
  | answered (status : Nat) (body : Option String) (decoded : Except String ρ)

/-- A backend that asks a server; its replies are decoded to a `ρ`. -/
structure HttpBackend (ρ : Type) where
  server : String
  emptyResponse : String
  endpoint : String
  path : String
  model : String
  temperature : Float32
  constraint : String × Value
  limit : String × Nat
  flags : List (String × Bool)
  content : ρ → String

def truncate (s : String) (max : Nat) : String :=
  if s.toList.length ≤ max then s else String.ofList (s.toList.take max ++ ['…'])

/-- `trim_end_matches('/')`. -/
def trimSlashes (endpoint : String) : String :=
  String.ofList (endpoint.toList.rdropWhile (· == '/'))

namespace HttpBackend

variable {ρ : Type} (b : HttpBackend ρ)

def request (prompt : String) : Completion where
  url := b.endpoint ++ b.path
  prompt := prompt
  model := b.model
  temperature := b.temperature
  constraint := b.constraint
  limit := b.limit
  flags := b.flags

/-- One round-trip. -/
def complete : HttpOutcome ρ → Except String String
  | .timeout e =>
      .error ("timeout: " ++ b.server ++ " did not respond within the deadline (" ++ e ++ ")")
  | .unreachable e => .error ("connection refused: cannot reach " ++ b.server ++ " (" ++ e ++ ")")
  | .failed e => .error ("request error: " ++ e)
  | .answered status body decoded =>
      if status ≠ 200 then
        .error ("http status " ++ toString status ++ ": " ++ truncate (body.getD "") 200)
      else
        match decoded with
        | .error e => .error ("malformed completion response: " ++ e)
        | .ok reply =>
            let content := Text.trim (b.content reply)
            if content = "" then .error ("empty response: " ++ b.emptyResponse) else .ok content

variable (R : Reader) (showF32 : Float32 → String) (fresh : Nat → Uuid)
  (serve : List Completion → HttpOutcome ρ)

/-- The answer to the words, with the requests it took: a second one when the validator rejects
what the first has brought. -/
def infer (words : String) (session : SessionContext) : Except String String × List Completion :=
  let prompt := buildPrompt words session
  match b.complete (serve [b.request prompt]) with
  | .error e => (.error e, [b.request prompt])
  | .ok first =>
      match parseLlmOutputWithContext R (fresh 0) first words session with
      | .ok _ => (.ok first, [b.request prompt])
      | .error schemaErr =>
          let corrective := correctivePrompt prompt (schemaErr.text showF32)
          let sent := [b.request prompt, b.request corrective]
          match b.complete (serve sent) with
          | .error e => (.error e, sent)
          | .ok second =>
              match parseLlmOutputWithContext R (fresh 1) second words session with
              | .ok _ => (.ok second, sent)
              | .error e =>
                  (.error ("schema validation failed after one retry: " ++ e.text showF32), sent)

end HttpBackend

/-- The llama-server, held to a grammar. -/
def HttpLlamaBackend.withGrammar (endpoint model grammar : String) : HttpBackend String where
  server := "llama-server"
  emptyResponse := "llama-server returned no content"
  endpoint := trimSlashes endpoint
  path := "/completion"
  model := model
  temperature := 0.1
  constraint := ("grammar", .str grammar)
  limit := ("n_predict", 512)
  flags := [("cache_prompt", true), ("stream", false)]
  content := fun reply => reply

/-- vLLM, held to a JSON schema; of its choices the first counts. -/
def HttpVllmBackend.withSchemaJson (endpoint model : String) (jsonSchema : Value) :
    HttpBackend (List String) where
  server := "vLLM"
  emptyResponse := "vLLM returned no completion text"
  endpoint := trimSlashes endpoint
  path := "/v1/completions"
  model := model
  temperature := 0
  constraint := ("structured_outputs", .obj [("json", jsonSchema)])
  limit := ("max_tokens", 448)
  flags := [("stream", false)]
  content := fun choices => choices.head?.getD ""

/-! ## The mock -/

namespace MockLlmBackend

def mockLlmSource : String := "mock_llm"

variable (fresh : Uuid) (input : String) (session : SessionContext)

/-- What the schemas of the mock have in common. -/
def mockSchema (goal : String) (domain : Option String) (confidence ambiguity risk : Float32)
    (context : List String) (candidates : List CandidateAction) (question : Option String) :
    IntentSchema where
  intentId := fresh
  rawInput := input
  goal := goal
  domain := domain
  confidence := confidence
  ambiguityScore := ambiguity
  riskEstimate := risk
  requiredContext := context
  candidateActions := candidates
  disambiguationRequired := question.isSome
  disambiguationQuestion := question
  sessionContext := session
  halPreScore := risk
  escalateToCloud := false
  source := some mockLlmSource

def benignMkdirSchema : IntentSchema :=
  mockSchema fresh input session "create_dir" session.lastActiveDomain 0.95 0.1 0.2 []
    [⟨"create_dir", "/tmp/test", 0.95, 0⟩] none

def confirmInstallSchema : IntentSchema :=
  mockSchema fresh input session "pkg.install" session.lastActiveDomain 0.86 0.1 0.68 []
    [⟨"install_package", "e2e-test-tool", 0.86, 0.1⟩] none

def confirmDeleteSchema : IntentSchema :=
  mockSchema fresh input session "delete_path" (some "system") 0.88 0.1 0.72 []
    [⟨"file.delete", "/etc/passwd", 0.88, 0.2⟩] none

def dangerousDeleteSchema : IntentSchema :=
  mockSchema fresh input session "delete_path" (some "system") 0.9 0.1 0.97 []
    [⟨"delete_files", "/boot", 0.9, 0.15⟩] none

def ambiguousSchema : IntentSchema :=
  mockSchema fresh input session "open_workspace" (some "robotique") 0.68 0.7 0.1
    ["recent_project"]
    [⟨"open_files", "~/projets/robot-scolaire/bras.py", 0.66, 0.5⟩,
      ⟨"open_files", "~/projets/robot-perso/rover.py", 0.62, 0.48⟩]
    (some "Le bras robotisé de l'école ou le rover perso ?")

def buildSchema : IntentSchema :=
  let normalized := normalize input
  if Text.contains normalized "supprime" && Text.contains normalized "boot" then
    dangerousDeleteSchema fresh input session
  else if Text.contains normalized "installe" && Text.contains normalized "paquet" then
    confirmInstallSchema fresh input session
  else if Text.contains normalized "supprime" && Text.contains normalized "passwd" then
    confirmDeleteSchema fresh input session
  else if Text.contains normalized "projet robotique" then ambiguousSchema fresh input session
  else benignMkdirSchema fresh input session

def infer (printF32 : Float32 → NumLit) (fresh : Uuid) (input : String)
    (session : SessionContext) : Except String String :=
  if Text.trim input = "" then .error "mock llm: empty input"
  else .ok ((buildSchema fresh input session).json printF32).print

end MockLlmBackend

/-! ## The daemon's stack -/

/-- What a backend of the daemon asks first. -/
inductive ServiceBackend
  | mock
  | vllm (b : HttpBackend (List String)) (serve : List Completion → HttpOutcome (List String))
  | llama (b : HttpBackend String) (serve : List Completion → HttpOutcome String)

namespace ServiceBackend

variable (R : Reader) (printF32 : Float32 → NumLit) (showF32 : Float32 → String)
  (fresh : Nat → Uuid)

def stampsVllmSource : ServiceBackend → Bool
  | .vllm _ _ => true
  | _ => false

/-- The primary backend. -/
def primary : ServiceBackend → String → SessionContext → Except String String
  | .mock => MockLlmBackend.infer printF32 (fresh 0)
  | .vllm b serve => fun words session => (b.infer R showF32 fresh serve words session).1
  | .llama b serve => fun words session => (b.infer R showF32 fresh serve words session).1

/-- The stack: the keyword backend answers where the primary fails. -/
def infer (backend : ServiceBackend) : Infer :=
  FallbackBackend.infer (backend.primary R printF32 showF32 fresh)
    (KeywordBackend.infer printF32 (fresh 2))

end ServiceBackend

/-- The text of an error of the parser. -/
def IntentError.text (showF32 : Float32 → String) : IntentError → String
  | .inference e => "inference backend error: " ++ e
  | .schema e => "schema error: " ++ e.text showF32

/-! ## What is accepted -/

section Accepts

variable {R : Reader} {printF32 : Float32 → NumLit}

/-- An output that the validator accepts, whatever it is stamped with. -/
def Accepts (R : Reader) (output : String) : Prop :=
  ∀ fresh input session, ∃ s, parseLlmOutputWithContext R fresh output input session = .ok s

/-- An output is refused for what it says, and not for its stamps. -/
theorem refused_congr {fresh : Uuid} {output input : String} {session : SessionContext}
    {e : ParseError} (h : parseLlmOutputWithContext R fresh output input session = .error e)
    (fresh' : Uuid) (input' : String) (session' : SessionContext) :
    parseLlmOutputWithContext R fresh' output input' session' = .error e := by
  unfold parseLlmOutputWithContext parseLlmOutputWithInjection at h ⊢
  cases hread : R.fromStr output with
  | none =>
      rw [hread] at h
      exact h
  | some v =>
      simp only [hread, readIntent_eq] at h ⊢
      cases hcheck : check R v with
      | error e' =>
          rw [hcheck] at h
          exact h
      | ok c =>
          rw [hcheck] at h
          cases h

theorem accepts_of_read {fresh : Uuid} {output input : String} {session : SessionContext}
    {s : IntentSchema} (h : parseLlmOutputWithContext R fresh output input session = .ok s) :
    Accepts R output := by
  intro fresh' input' session'
  cases hread : parseLlmOutputWithContext R fresh' output input' session' with
  | ok s' => exact ⟨s', rfl⟩
  | error e =>
      rw [refused_congr hread] at h
      cases h

/-- An intent that is written is accepted. -/
theorem accepts_json (hprint : PrintsUnit printF32) {s : IntentSchema}
    (hscores : ∀ x ∈ s.scores, 0 ≤ x ∧ x ≤ 1) (hgoal : Text.trim s.goal ≠ "")
    (hasks : s.disambiguationRequired = true → s.disambiguationQuestion.isSome = true) :
    Accepts R (s.json printF32).print := by
  obtain ⟨s', hread, -⟩ :=
    read_json (R := R) hprint hscores hgoal hasks .nil (askOpen "12:00" 0)
  exact accepts_of_read hread

/-- When a request gets an intent. -/
theorem parse_ok_iff (hash : KeyHash) (cache : IntentKvCache) (r : ParseRequest) :
    (∃ result, (parse R hash cache r).1 = .ok result) ↔
      normalize r.rawInput = "" ∨ (∃ hit, (cache.get r.now (r.key hash)).1 = some hit) ∨
        ∃ output schema, r.answer = .ok output ∧ readAnswer R r.fresh output r = .ok schema := by
  rw [parse]
  split_ifs with hblank
  · simp [hblank]
  · generalize cache.get r.now (r.key hash) = found
    obtain ⟨hit, behind⟩ := found
    cases hit with
    | some schema => simp
    | none =>
        cases hanswer : r.answer with
        | error e => simp [hblank]
        | ok output =>
            cases hread : readAnswer R r.fresh output r with
            | error e => simp [hblank, hread]
            | ok schema => simp [hread]

/-- A request that fails on the schema has an answer that is refused. -/
theorem refused_of_parse {hash : KeyHash} {cache : IntentKvCache} {r : ParseRequest}
    {e : ParseError} (h : (parse R hash cache r).1 = .error (.schema e)) :
    ∃ output, r.answer = .ok output ∧ readAnswer R r.fresh output r = .error e := by
  rw [parse] at h
  split_ifs at h
  split at h
  · cases h
  · split at h
    · cases h
    · next output hanswer =>
        split at h
        · next hread =>
            cases h
            exact ⟨output, hanswer, hread⟩
        · cases h

end Accepts

/-! ## The servers -/

section Servers

variable {ρ : Type} (b : HttpBackend ρ) (R : Reader) (showF32 : Float32 → String)
  (fresh : Nat → Uuid) (serve : List Completion → HttpOutcome ρ)

/-- How words end at a server, and what it was sent for them. -/
inductive InferCase (words : String) (session : SessionContext) :
    Except String String × List Completion → Prop
  | lost (e : String) :
      b.complete (serve [b.request (buildPrompt words session)]) = .error e →
      InferCase words session (.error e, [b.request (buildPrompt words session)])
  | first (text : String) :
      b.complete (serve [b.request (buildPrompt words session)]) = .ok text → Accepts R text →
      InferCase words session (.ok text, [b.request (buildPrompt words session)])
  | again (text : String) (e : ParseError) (sent : List Completion)
      (answer : Except String String) :
      b.complete (serve [b.request (buildPrompt words session)]) = .ok text →
      parseLlmOutputWithContext R (fresh 0) text words session = .error e →
      sent = [b.request (buildPrompt words session),
        b.request (correctivePrompt (buildPrompt words session) (e.text showF32))] →
      (∀ output, answer = .ok output ↔
        b.complete (serve sent) = .ok output ∧ Accepts R output) →
      InferCase words session (answer, sent)

theorem not_accepts_of_refused {R : Reader} {fresh : Uuid} {output input : String}
    {session : SessionContext} {e : ParseError}
    (h : parseLlmOutputWithContext R fresh output input session = .error e) :
    ¬ Accepts R output := by
  intro haccepts
  obtain ⟨s, hs⟩ := haccepts fresh input session
  rw [h] at hs
  cases hs

theorem infer_case (words : String) (session : SessionContext) :
    InferCase b R showF32 fresh serve words session
      (b.infer R showF32 fresh serve words session) := by
  unfold HttpBackend.infer
  dsimp only
  split
  · next e hfirst => exact .lost e hfirst
  · next text hfirst =>
      split
      · next hread => exact .first text hfirst (accepts_of_read hread)
      · next e hread =>
          split
          · next e' hsecond =>
              refine .again text e _ _ hfirst hread rfl fun output => ?_
              simp [hsecond]
          · next second hsecond =>
              split
              · next hread' =>
                  refine .again text e _ _ hfirst hread rfl fun output => ?_
                  rw [hsecond]
                  exact ⟨fun h => ⟨h, Except.ok.inj h ▸ accepts_of_read hread'⟩, And.left⟩
              · next hread' =>
                  refine .again text e _ _ hfirst hread rfl fun output => ?_
                  rw [hsecond]
                  refine ⟨nofun, fun h => ?_⟩
                  obtain rfl := Except.ok.inj h.1
                  exact absurd h.2 (not_accepts_of_refused hread')

/-- A server's backend answers with the text that it got last, if that is accepted. -/
theorem infer_eq_ok_iff (words : String) (session : SessionContext) (output : String) :
    (b.infer R showF32 fresh serve words session).1 = .ok output ↔
      b.complete (serve (b.infer R showF32 fresh serve words session).2) = .ok output ∧
        Accepts R output := by
  have hcase := infer_case b R showF32 fresh serve words session
  generalize b.infer R showF32 fresh serve words session = asked at hcase ⊢
  cases hcase with
  | lost e hfirst => simp [hfirst]
  | first text hfirst haccepts =>
      rw [hfirst]
      exact ⟨fun h => ⟨h, Except.ok.inj h ▸ haccepts⟩, And.left⟩
  | again text e sent answer hfirst hread hsent hanswer => exact hanswer output

/-- What a server's backend answers is accepted. -/
theorem infer_accepts {words output : String} {session : SessionContext}
    (h : (b.infer R showF32 fresh serve words session).1 = .ok output) : Accepts R output :=
  ((infer_eq_ok_iff b R showF32 fresh serve words session output).mp h).2

/-- A request to a parser whose model is behind a server. -/
def ParseRequest.over (r : ParseRequest) : ParseRequest :=
  { r with infer := fun words session => (b.infer R showF32 fresh serve words session).1 }

/-- The parser over a server answers what needs no model, what is cached, and what the server's
last text says if that is accepted; it fails on all else, but never on the schema.  The server is
asked a second time exactly when the parser would refuse its first text, with the parser's own
error. -/
theorem parse_over (hash : KeyHash) (cache : IntentKvCache) (r : ParseRequest) :
    let prompt := buildPrompt (normalize r.rawInput) r.session
    let sent := (b.infer R showF32 fresh serve (normalize r.rawInput) r.session).2
    let parsed := (parse R hash cache (r.over b R showF32 fresh serve)).1
    ((∃ result, parsed = .ok result) ↔
      normalize r.rawInput = "" ∨ (∃ hit, (cache.get r.now (r.key hash)).1 = some hit) ∨
        ∃ output, b.complete (serve sent) = .ok output ∧ Accepts R output) ∧
    (∀ e, parsed ≠ .error (.schema e)) ∧
    ((∃ first e, b.complete (serve [b.request prompt]) = .ok first ∧
          readAnswer R r.fresh first r = .error e ∧
          sent = [b.request prompt, b.request (correctivePrompt prompt (e.text showF32))]) ∨
      (∀ first, b.complete (serve [b.request prompt]) = .ok first →
          ∃ schema, readAnswer R r.fresh first r = .ok schema) ∧
        sent = [b.request prompt]) := by
  intro prompt sent parsed
  have hok := infer_eq_ok_iff b R showF32 fresh serve (normalize r.rawInput) r.session
  refine ⟨?_, ?_, ?_⟩
  · refine (parse_ok_iff hash cache _).trans (or_congr_right (or_congr_right ?_))
    refine exists_congr fun output => ?_
    rw [← hok output]
    constructor
    · rintro ⟨schema, hanswer, -⟩
      exact hanswer
    · intro hanswer
      obtain ⟨schema, hread⟩ :=
        infer_accepts b R showF32 fresh serve hanswer r.fresh r.rawInput r.session
      exact ⟨schema, hanswer, hread⟩
  · intro e h
    obtain ⟨output, hanswer, hread⟩ := refused_of_parse h
    exact not_accepts_of_refused hread (infer_accepts b R showF32 fresh serve hanswer)
  · have hcase := infer_case b R showF32 fresh serve (normalize r.rawInput) r.session
    simp only [sent]
    generalize b.infer R showF32 fresh serve (normalize r.rawInput) r.session = asked at hcase ⊢
    cases hcase with
    | lost e hfirst =>
        refine Or.inr ⟨fun first h => ?_, rfl⟩
        cases hfirst.symm.trans h
    | first text hfirst haccepts =>
        refine Or.inr ⟨fun first h => ?_, rfl⟩
        obtain rfl := Except.ok.inj (hfirst.symm.trans h)
        exact haccepts _ _ _
    | again text e _ answer hfirst hread hsent hanswer =>
        exact Or.inl ⟨text, e, hfirst, refused_congr hread _ _ _, hsent⟩

/-! ## The daemon -/

variable {R showF32 fresh} {printF32 : Float32 → NumLit}

/-- What the mock may write. -/
def MockLlmBackend.schemas (fresh : Uuid) (input : String) (session : SessionContext) :
    List IntentSchema :=
  [benignMkdirSchema fresh input session, confirmInstallSchema fresh input session,
    confirmDeleteSchema fresh input session, dangerousDeleteSchema fresh input session,
    ambiguousSchema fresh input session]

theorem buildSchema_mem (fresh : Uuid) (input : String) (session : SessionContext) :
    MockLlmBackend.buildSchema fresh input session ∈
      MockLlmBackend.schemas fresh input session := by
  unfold MockLlmBackend.buildSchema MockLlmBackend.schemas
  dsimp only
  generalize Text.contains (normalize input) "supprime" = removes
  generalize Text.contains (normalize input) "projet robotique" = vague
  generalize (Text.contains (normalize input) "installe" && _) = installs
  cases removes <;> cases installs <;> cases vague <;> split_ifs <;> simp

/-- Whatever the mock writes is accepted. -/
theorem mock_accepted (hprint : PrintsUnit printF32) {fresh : Uuid} {input output : String}
    {session : SessionContext}
    (h : MockLlmBackend.infer printF32 fresh input session = .ok output) : Accepts R output := by
  rw [MockLlmBackend.infer] at h
  split at h
  · cases h
  · obtain rfl := Except.ok.inj h
    have hmem := buildSchema_mem fresh input session
    generalize MockLlmBackend.buildSchema fresh input session = schema at hmem ⊢
    have hasks : ∀ s ∈ MockLlmBackend.schemas fresh input session,
        s.disambiguationRequired = true → s.disambiguationQuestion.isSome = true := by
      intro s hs
      simp only [MockLlmBackend.schemas, List.mem_cons, List.not_mem_nil, or_false] at hs
      rcases hs with rfl | rfl | rfl | rfl | rfl <;> exact id
    -- scores and goals are the same for all words
    have hsame : (MockLlmBackend.schemas fresh input session).map
        (fun s => (s.scores, s.goal)) =
          (MockLlmBackend.schemas .nil "" IntentEngine.session).map
            fun s => (s.scores, s.goal) := by
      simp only [MockLlmBackend.schemas, MockLlmBackend.benignMkdirSchema,
        MockLlmBackend.confirmInstallSchema, MockLlmBackend.confirmDeleteSchema,
        MockLlmBackend.dangerousDeleteSchema, MockLlmBackend.ambiguousSchema,
        MockLlmBackend.mockSchema, IntentSchema.scores, List.map_cons, List.map_nil]
    have hall : ∀ p ∈ (MockLlmBackend.schemas .nil "" IntentEngine.session).map
        (fun s => (s.scores, s.goal)),
        (∀ x ∈ p.1, 0 ≤ x ∧ x ≤ 1) ∧ Text.trim p.2 ≠ "" := by decide +kernel
    rw [← hsame] at hall
    obtain ⟨hscores, hgoal⟩ := hall (schema.scores, schema.goal)
      (List.mem_map.mpr ⟨schema, hmem, rfl⟩)
    exact accepts_json hprint hscores hgoal (hasks _ hmem)

/-- So is whatever a primary backend answers. -/
theorem primary_accepted (hprint : PrintsUnit printF32) {backend : ServiceBackend}
    {words output : String} {session : SessionContext}
    (h : backend.primary R printF32 showF32 fresh words session = .ok output) :
    Accepts R output := by
  cases backend with
  | mock => exact mock_accepted hprint h
  | vllm b serve => exact infer_accepts b R showF32 fresh serve h
  | llama b serve => exact infer_accepts b R showF32 fresh serve h

/-- Words of the parser always get an answer that is accepted. -/
theorem answer_accepted (hprint : PrintsUnit printF32) {backend : ServiceBackend} {raw : String}
    (hwords : normalize raw ≠ "") {session : SessionContext} {answer : Except String String}
    (h : backend.infer R printF32 showF32 fresh (normalize raw) session = some answer) :
    ∃ output, answer = .ok output ∧ Accepts R output := by
  rw [ServiceBackend.infer, FallbackBackend.infer] at h
  cases hprimary : backend.primary R printF32 showF32 fresh (normalize raw) session with
  | ok output =>
      rw [hprimary] at h
      exact ⟨output, (Option.some.inj h).symm, primary_accepted hprint hprimary⟩
  | error e =>
      have htarget : extractTargetForAction (classify (normalize raw)).1 (normalize raw) = _ :=
        extractTarget_normalize _
      obtain ⟨s, hs, hgoal, -, hscores, hasks⟩ :=
        buildIntent_of_target (fresh 2) session htarget
      simp only [hprimary, KeywordBackend.infer, if_neg (trim_normalize hwords), hs] at h
      exact ⟨_, (Option.some.inj h).symm,
        accepts_json hprint hscores (hgoal ▸ trim_classify _) hasks⟩

/-- A request that the stack answers is parsed, whatever is cached. -/
theorem exists_parse (hprint : PrintsUnit printF32) {backend : ServiceBackend} (hash : KeyHash)
    (cache : IntentKvCache) {r : ParseRequest}
    (h : backend.infer R printF32 showF32 fresh (normalize r.rawInput) r.session =
      some r.answer) : ∃ result, (parse R hash cache r).1 = .ok result := by
  rw [parse_ok_iff]
  by_cases hwords : normalize r.rawInput = ""
  · exact Or.inl hwords
  · obtain ⟨output, hanswer, haccepted⟩ := answer_accepted hprint hwords h
    obtain ⟨s, hread⟩ := haccepted r.fresh r.rawInput r.session
    exact Or.inr (Or.inr ⟨output, s, hanswer, hread⟩)

/-- Whatever the server does and whatever is cached, the daemon answers a request with an intent,
in which vLLM or the keyword backend signs when vLLM is asked: it never reports a failure. -/
theorem status_handle (hprint : PrintsUnit printF32) (backend : ServiceBackend) (hash : KeyHash)
    (cache : IntentKvCache) (r : ParseRequest) (w : ServiceWorld) (intent : Request)
    (hraw : r.rawInput = intent.rawInput) (hsession : r.session = buildSession w intent)
    (hanswer : backend.infer R printF32 showF32 fresh (normalize intent.rawInput)
      (buildSession w intent) = some r.answer)
    (hparse : w.parse intent.rawInput (buildSession w intent) =
      ((parse R hash cache r).1.map ParseResult.schema).mapError (IntentError.text showF32)) :
    ∃ schema, (handle backend.stampsVllmSource w intent).resultJson = w.toJson schema ∧
      ((handle backend.stampsVllmSource w intent).status = "ok" ∨
        (handle backend.stampsVllmSource w intent).status = "unsupported") ∧
      (backend.stampsVllmSource = true →
        schema.source = some vllmSource ∨ schema.source = some keywordFallbackSource) := by
  rw [← hraw, ← hsession] at hanswer
  obtain ⟨result, hresult⟩ := exists_parse hprint hash cache hanswer
  rw [hresult] at hparse
  have hok : w.parse intent.rawInput (buildSession w intent) = .ok result.schema := hparse
  refine ⟨stampSource backend.stampsVllmSource result.schema, ?_, ?_, fun hstamps => ?_⟩
  · rw [handle_ok _ hok, answer]
    cases nonExecutableReason (stampSource backend.stampsVllmSource result.schema).goal with
    | none => rfl
    | some reason => rfl
  · rw [handle_ok _ hok, answer]
    cases nonExecutableReason (stampSource backend.stampsVllmSource result.schema).goal with
    | none => exact Or.inl rfl
    | some reason => exact Or.inr rfl
  · rw [hstamps, stampSource]
    by_cases hkeyword : result.schema.source = some keywordFallbackSource
    · simp [hkeyword]
    · simp [hkeyword]

end Servers

/-- A vLLM that does not answer in time. -/
def timedOut : ServiceBackend :=
  .vllm (HttpVllmBackend.withSchemaJson "http://127.0.0.1:8000/" "qwen" .null) fun _ =>
    .timeout "operation timed out"

/-- The daemon just started, when its stack has this answer. -/
def startedWith (answer : Except String String) : ServiceWorld :=
  { readAs .null with
    parse := fun rawInput _ =>
      ((parse Reader.sample (fun _ _ _ _ => 0) .new (askDown rawInput answer)).1.map
        ParseResult.schema).mapError (IntentError.text fun _ => "")
    toJson := fun schema => (schema.json shortest).print.toUTF8.toList }

theorem status_handle_timedOut : ∃ (answer : Except String String) (schema : IntentSchema),
    timedOut.infer Reader.sample shortest (fun _ => "") Uuid.numbered (normalize "open notes")
      session = some answer ∧
    (handle true (startedWith answer) (utter "open notes")).resultJson =
      (schema.json shortest).print.toUTF8.toList ∧
    ((handle true (startedWith answer) (utter "open notes")).status = "ok" ∨
      (handle true (startedWith answer) (utter "open notes")).status = "unsupported") ∧
    (schema.source = some vllmSource ∨ schema.source = some keywordFallbackSource) := by
  obtain ⟨answer, hanswer⟩ := exists_answer shortest (Uuid.numbered 2)
    (timedOut.primary Reader.sample shortest (fun _ => "") Uuid.numbered) "open notes" session
  rw [← ServiceBackend.infer] at hanswer
  have hraw : (utter "open notes").rawInput = "open notes" := rfl
  have hsession : buildSession (startedWith answer) (utter "open notes") = session := rfl
  obtain ⟨schema, hjson, hstatus, hsource⟩ := status_handle printsUnit_shortest timedOut
    (fun _ _ _ _ => 0) .new (askDown "open notes" answer) (startedWith answer)
    (utter "open notes") hraw.symm hsession.symm (by rw [hraw, hsession]; exact hanswer)
    (by rw [hraw, startedWith])
  exact ⟨answer, schema, hanswer, hjson, hstatus, hsource rfl⟩

end IntentEngine

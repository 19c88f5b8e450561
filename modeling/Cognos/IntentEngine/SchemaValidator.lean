/-
# `Cognos.IntentEngine.SchemaValidator` — from a model's output to an intent

`schema_validator.rs`: the text a language model answers with becomes an `IntentSchema`,
or an error.  The caller's words and session are stamped on it where they are given; the
id of the intent is then a fresh one, a parameter here.

What an accepted intent is made of is said once, by `Accepted`, and `readIntent_ok_iff`
says that nothing else is accepted.  The message that a refused text is printed with is
left out.
-/
import Cognos.Lib.Json.Number
import Cognos.Lib.Uuid

namespace IntentEngine

open Json (Value Reader)
open FloatText (narrow clamp01)

/-! ## Schema types -/

/-- Provenance stamp of the keyword classifier's output. -/
def keywordFallbackSource : String := "keyword_fallback"

structure CandidateAction where
  action : String
  target : String
  confidence : Float32
  recencyScore : Float32
  deriving DecidableEq

structure SessionContext where
  lastActiveDomain : Option String
  lastActiveFiles : List String
  currentTime : String
  timeSinceLastSession : Option String
  deriving DecidableEq

structure IntentSchema where
  intentId : Uuid
  rawInput : String
  goal : String
  domain : Option String
  confidence : Float32
  ambiguityScore : Float32
  riskEstimate : Float32
  requiredContext : List String
  candidateActions : List CandidateAction
  disambiguationRequired : Bool
  disambiguationQuestion : Option String
  sessionContext : SessionContext
  halPreScore : Float32
  escalateToCloud : Bool
  /-- Set by the system: nothing on the normal path. -/
  source : Option String
  deriving DecidableEq

/-! ## Errors -/

inductive ParseError
  | invalidJson (e : String)
  | missingField (name : String)
  | emptyGoal
  | floatOutOfRange (field : String) (value : Float32)
  | disambiguationMissingQuestion
  deriving DecidableEq

/-- The text of an error; `{}` of an `f32` is a parameter. -/
def ParseError.text (showF32 : Float32 → String) : ParseError → String
  | .invalidJson e => "Invalid JSON: " ++ e
  | .missingField name => "Missing required field: '" ++ name ++ "'"
  | .emptyGoal => "goal field must not be empty"
  | .floatOutOfRange field value =>
      "Field '" ++ field ++ "' value " ++ showF32 value ++ " out of [0.0,1.0]"
  | .disambiguationMissingQuestion => "disambiguation_required=true but no question provided"

inductive ValidationError
  | disambiguationWithoutQuestion
  | cloudEscalationInconsistent
  deriving DecidableEq

def ValidationError.debug : ValidationError → String
  | .disambiguationWithoutQuestion => "DisambiguationWithoutQuestion"
  | .cloudEscalationInconsistent => "CloudEscalationInconsistent"

/-! ## Parsing -/

/-- Caller-known values stamped after inference (never LLM-emitted). -/
structure InjectedIntentFields where
  userInput : String
  session : SessionContext

/-- Fields always set by the parser or the runtime. -/
def injectedFields : List String := ["raw_input", "intent_id", "session_context", "source"]

/-- Validate all invariants after parsing. -/
def validate (schema : IntentSchema) : Except (List ValidationError) Unit :=
  let errors := if schema.disambiguationRequired && schema.disambiguationQuestion.isNone then
    [ValidationError.disambiguationWithoutQuestion] else []
  if errors.isEmpty then .ok () else .error errors

/-- The goal: required, and not blank. -/
def readGoal (v : Value) : Except ParseError String :=
  match (v.index "goal").asStr? with
  | none => .error (.missingField "goal")
  | some goal => if Text.trim goal = "" then .error .emptyGoal else .ok goal

section Parser

variable (R : Reader)

def parseF32 (v : Value) (field : String) : Except ParseError Float32 :=
  match R.asF64? (v.index field) with
  | none => .error (.missingField field)
  | some x =>
      let val := narrow x
      if 0 ≤ val ∧ val ≤ 1 then .ok val else .error (.floatOutOfRange field val)

/-- One candidate; `None` where a member is missing or of another type. -/
def readCandidate (ca : Value) : Option CandidateAction := do
  let action ← (ca.index "action").asStr?
  let target ← (ca.index "target").asStr?
  let confidence ← R.asF64? (ca.index "confidence")
  let recencyScore ← R.asF64? (ca.index "recency_score")
  return ⟨action, target, narrow (clamp01 confidence), narrow (clamp01 recencyScore)⟩

/-- `candidate_actions`: must be there as an array. -/
def readCandidates (v : Value) : Except ParseError (List CandidateAction) :=
  match (v.index "candidate_actions").asArray? with
  | none => .error (.missingField "candidate_actions")
  | some cas => .ok (cas.filterMap (readCandidate R))

/-- Auto-derived where it is not explicit; the keyword fallback never escalates by itself. -/
def escalates (explicit : Option Bool) (source : Option String) (confidence : Float32)
    (requiredContext : List String) : Bool :=
  match explicit with
  | some flag => flag
  | none =>
      if source = some keywordFallbackSource then false
      else decide (confidence < 0.75) || requiredContext.any (· == "cloud_reasoning")

/-- The session a blob carries itself. -/
def readSession (v : Value) : SessionContext where
  lastActiveDomain := (v.index "last_active_domain").asStr?
  lastActiveFiles := (v.index "last_active_files").strings
  currentTime := (v.index "current_time").asStr?.getD "00:00"
  timeSinceLastSession := (v.index "time_since_last_session").asStr?

/-! What the caller stamps, or else the blob itself says. -/

def stampedId (fresh : Uuid) (v : Value) : Option InjectedIntentFields → Uuid
  | some _ => fresh
  | none => ((v.index "intent_id").asStr?.bind Uuid.parse?).getD fresh

def stampedInput (v : Value) : Option InjectedIntentFields → String
  | some c => c.userInput
  | none => (v.index "raw_input").asStr?.getD ""

def stampedSession (v : Value) : Option InjectedIntentFields → SessionContext
  | some c => c.session
  | none => readSession (v.index "session_context")

/-- The intent made of a value whose checked members are given. -/
def buildIntent (fresh : Uuid) (v : Value) (injected : Option InjectedIntentFields) (goal : String)
    (confidence ambiguityScore riskEstimate halPreScore : Float32)
    (candidateActions : List CandidateAction) : IntentSchema :=
  let source := (v.index "source").asStr?
  let requiredContext := (v.index "required_context").strings
  { intentId := stampedId fresh v injected
    rawInput := stampedInput v injected
    goal := goal
    domain := (v.index "domain").asStr?
    confidence := confidence
    ambiguityScore := ambiguityScore
    riskEstimate := riskEstimate
    requiredContext := requiredContext
    candidateActions := candidateActions
    disambiguationRequired := (v.index "disambiguation_required").asBool?.getD false
    disambiguationQuestion := (v.index "disambiguation_question").asStr?
    sessionContext := stampedSession v injected
    halPreScore := halPreScore
    escalateToCloud :=
      escalates (v.index "escalate_to_cloud").asBool? source confidence requiredContext
    source := source }

/-- The intent of a JSON value. -/
def readIntent (fresh : Uuid) (v : Value) (injected : Option InjectedIntentFields) :
    Except ParseError IntentSchema := do
  let goal ← readGoal v
  let confidence ← parseF32 R v "confidence"
  let ambiguityScore ← parseF32 R v "ambiguity_score"
  let riskEstimate ← parseF32 R v "risk_estimate"
  let halPreScore ← parseF32 R v "hal_pre_score"
  let candidateActions ← readCandidates R v
  if (v.index "disambiguation_required").asBool?.getD false &&
      (v.index "disambiguation_question").asStr?.isNone then
    .error .disambiguationMissingQuestion
  else
    let schema := buildIntent fresh v injected goal confidence ambiguityScore riskEstimate
      halPreScore candidateActions
    match validate schema with
    | .error errs => .error (.invalidJson (", ".intercalate (errs.map ValidationError.debug)))
    | .ok () => .ok schema

def parseLlmOutputWithInjection (fresh : Uuid) (raw : String)
    (injected : Option InjectedIntentFields) : Except ParseError IntentSchema :=
  match R.fromStr raw with
  | none => .error (.invalidJson (R.errorText raw))
  | some v => readIntent R fresh v injected

/-- Parse raw LLM JSON output into a typed schema. -/
def parseLlmOutput (fresh : Uuid) (raw : String) : Except ParseError IntentSchema :=
  parseLlmOutputWithInjection R fresh raw none

/-- Production path: stamp the input, the id and the session of the caller. -/
def parseLlmOutputWithContext (fresh : Uuid) (raw userInput : String) (session : SessionContext) :
    Except ParseError IntentSchema :=
  parseLlmOutputWithInjection R fresh raw (some ⟨userInput, session⟩)

/-! ## What is accepted -/

theorem parseF32_ok_iff {v : Value} {field : String} {val : Float32} :
    parseF32 R v field = .ok val ↔
      (∃ x, R.asF64? (v.index field) = some x ∧ val = narrow x) ∧ 0 ≤ val ∧ val ≤ 1 := by
  unfold parseF32
  cases h : R.asF64? (v.index field) with
  | none => simp
  | some x =>
      constructor
      · intro hok
        simp only at hok
        split_ifs at hok with hunit
        cases hok
        exact ⟨⟨x, rfl, rfl⟩, hunit⟩
      · rintro ⟨⟨y, hy, rfl⟩, hunit⟩
        cases hy
        exact if_pos hunit

theorem readGoal_ok_iff {v : Value} {goal : String} :
    readGoal v = .ok goal ↔ (v.index "goal").asStr? = some goal ∧ Text.trim goal ≠ "" := by
  unfold readGoal
  cases h : (v.index "goal").asStr? with
  | none => simp
  | some g =>
      constructor
      · intro hok
        simp only at hok
        split_ifs at hok with hblank
        cases hok
        exact ⟨rfl, hblank⟩
      · rintro ⟨hg, hblank⟩
        cases hg
        exact if_neg hblank

theorem readCandidates_ok_iff {v : Value} {cs : List CandidateAction} :
    readCandidates R v = .ok cs ↔ ∃ cas, (v.index "candidate_actions").asArray? = some cas ∧
      cs = cas.filterMap (readCandidate R) := by
  unfold readCandidates
  cases h : (v.index "candidate_actions").asArray? with
  | none => simp
  | some cas =>
      constructor
      · rintro ⟨⟩
        exact ⟨cas, rfl, rfl⟩
      · rintro ⟨_, ⟨⟩, rfl⟩
        rfl

/-- An accepted intent, field by field. -/
structure Accepted (fresh : Uuid) (v : Value) (injected : Option InjectedIntentFields)
    (s : IntentSchema) : Prop where
  goal : (v.index "goal").asStr? = some s.goal
  notBlank : Text.trim s.goal ≠ ""
  confidence : parseF32 R v "confidence" = .ok s.confidence
  ambiguityScore : parseF32 R v "ambiguity_score" = .ok s.ambiguityScore
  riskEstimate : parseF32 R v "risk_estimate" = .ok s.riskEstimate
  halPreScore : parseF32 R v "hal_pre_score" = .ok s.halPreScore
  candidateActions : ∃ cas, (v.index "candidate_actions").asArray? = some cas ∧
    s.candidateActions = cas.filterMap (readCandidate R)
  disambiguationRequired :
    s.disambiguationRequired = (v.index "disambiguation_required").asBool?.getD false
  disambiguationQuestion :
    s.disambiguationQuestion = (v.index "disambiguation_question").asStr?
  asks : s.disambiguationRequired = true → s.disambiguationQuestion.isSome = true
  domain : s.domain = (v.index "domain").asStr?
  source : s.source = (v.index "source").asStr?
  requiredContext : s.requiredContext = (v.index "required_context").strings
  escalateToCloud : s.escalateToCloud = escalates (v.index "escalate_to_cloud").asBool? s.source
    s.confidence s.requiredContext
  intentId : s.intentId = stampedId fresh v injected
  rawInput : s.rawInput = stampedInput v injected
  sessionContext : s.sessionContext = stampedSession v injected

theorem validate_of_asks {s : IntentSchema}
    (h : s.disambiguationRequired = true → s.disambiguationQuestion.isSome = true) :
    validate s = .ok () := by
  unfold validate
  cases hreq : s.disambiguationRequired with
  | false => rfl
  | true =>
      obtain ⟨q, hq⟩ := Option.isSome_iff_exists.mp (h hreq)
      rw [hq]
      rfl

theorem bind_ok_iff {ε α β : Type} {x : Except ε α} {f : α → Except ε β} {b : β} :
    (x >>= f) = .ok b ↔ ∃ a, x = .ok a ∧ f a = .ok b := by
  cases x with
  | error e =>
      constructor
      · rintro ⟨⟩
      · rintro ⟨_, ⟨⟩, _⟩
  | ok a =>
      constructor
      · intro h
        exact ⟨a, rfl, h⟩
      · rintro ⟨_, ⟨⟩, h⟩
        exact h

theorem readIntent_ok_iff {fresh : Uuid} {v : Value} {injected : Option InjectedIntentFields}
    {s : IntentSchema} : readIntent R fresh v injected = .ok s ↔ Accepted R fresh v injected s := by
  constructor
  · intro h
    unfold readIntent at h
    obtain ⟨goal, hgoal, h⟩ := bind_ok_iff.mp h
    obtain ⟨confidence, hconfidence, h⟩ := bind_ok_iff.mp h
    obtain ⟨ambiguity, hambiguity, h⟩ := bind_ok_iff.mp h
    obtain ⟨risk, hrisk, h⟩ := bind_ok_iff.mp h
    obtain ⟨hal, hhal, h⟩ := bind_ok_iff.mp h
    obtain ⟨candidates, hcandidates, h⟩ := bind_ok_iff.mp h
    rw [readGoal_ok_iff] at hgoal
    rw [readCandidates_ok_iff] at hcandidates
    simp only at h
    split at h
    · cases h
    · next hasks =>
      split at h
      · cases h
      · cases h
        refine ⟨hgoal.1, hgoal.2, hconfidence, hambiguity, hrisk, hhal, hcandidates, rfl, rfl, ?_,
          rfl, rfl, rfl, rfl, rfl, rfl, rfl⟩
        intro hreq
        rw [Bool.and_eq_true, not_and, Bool.not_eq_true, Option.isNone_eq_false_iff] at hasks
        exact hasks hreq
  · intro h
    unfold readIntent
    refine bind_ok_iff.mpr ⟨_, readGoal_ok_iff.mpr ⟨h.goal, h.notBlank⟩, ?_⟩
    refine bind_ok_iff.mpr ⟨_, h.confidence, bind_ok_iff.mpr ⟨_, h.ambiguityScore, ?_⟩⟩
    refine bind_ok_iff.mpr ⟨_, h.riskEstimate, bind_ok_iff.mpr ⟨_, h.halPreScore, ?_⟩⟩
    refine bind_ok_iff.mpr ⟨_, (readCandidates_ok_iff R).mpr h.candidateActions, ?_⟩
    have hbuild : buildIntent fresh v injected s.goal s.confidence s.ambiguityScore s.riskEstimate
        s.halPreScore s.candidateActions = s := by
      unfold buildIntent
      simp only [← h.domain, ← h.source, ← h.requiredContext, ← h.escalateToCloud,
        ← h.disambiguationRequired, ← h.disambiguationQuestion, ← h.intentId, ← h.rawInput,
        ← h.sessionContext]
    simp only [hbuild, validate_of_asks h.asks]
    rw [if_neg]
    rw [← h.disambiguationRequired, ← h.disambiguationQuestion, Bool.and_eq_true, not_and,
      Bool.not_eq_true, Option.isNone_eq_false_iff]
    exact h.asks

end Parser

end IntentEngine

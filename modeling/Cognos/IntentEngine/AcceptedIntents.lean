/-
# `Cognos.IntentEngine.AcceptedIntents` — what is accepted, and what it says

Three questions about the intents that the validator accepts, each answered by a condition
on the JSON value that was read.

    candidates_faithful_iff   the candidates are those of the array, as given there, when
                              each element is well formed: others are dropped or clamped
    rules_iff                 the rules of the prompt hold when the value itself obeys
                              them: explicit flags are believed
    unmoved_iff               members the caller stamps have no influence when they agree
                              on the one that is read after all, `source`

All of them rest on `readIntent_eq`: first a value is checked, then the intent is built,
and building cannot fail.
-/
import Mathlib
import Cognos.IntentEngine.SchemaValidator

namespace IntentEngine

open Json (Value Reader)
open FloatText (narrow clamp01 unit_clamp01 clamp01_of_unit unit_narrow)

variable {R : Reader}

/-! ## Checking and building -/

/-- The members of a value that are checked. -/
structure Checked where
  goal : String
  confidence : Float32
  ambiguityScore : Float32
  riskEstimate : Float32
  halPreScore : Float32
  candidateActions : List CandidateAction

/-- All checks on a value. -/
def check (R : Reader) (v : Value) : Except ParseError Checked := do
  let goal ← readGoal v
  let confidence ← parseF32 R v "confidence"
  let ambiguityScore ← parseF32 R v "ambiguity_score"
  let riskEstimate ← parseF32 R v "risk_estimate"
  let halPreScore ← parseF32 R v "hal_pre_score"
  let candidateActions ← readCandidates R v
  if (v.index "disambiguation_required").asBool?.getD false &&
      (v.index "disambiguation_question").asStr?.isNone then
    .error .disambiguationMissingQuestion
  else .ok ⟨goal, confidence, ambiguityScore, riskEstimate, halPreScore, candidateActions⟩

def Checked.build (c : Checked) (fresh : Uuid) (v : Value)
    (injected : Option InjectedIntentFields) : IntentSchema :=
  buildIntent fresh v injected c.goal c.confidence c.ambiguityScore c.riskEstimate c.halPreScore
    c.candidateActions

/-- A checked value is built; the last validation has nothing left to find. -/
theorem readIntent_eq (fresh : Uuid) (v : Value) (injected : Option InjectedIntentFields) :
    readIntent R fresh v injected = (check R v).map (Checked.build · fresh v injected) := by
  unfold readIntent check
  cases readGoal v with
  | error e => rfl
  | ok goal =>
  cases parseF32 R v "confidence" with
  | error e => rfl
  | ok confidence =>
  cases parseF32 R v "ambiguity_score" with
  | error e => rfl
  | ok ambiguity =>
  cases parseF32 R v "risk_estimate" with
  | error e => rfl
  | ok risk =>
  cases parseF32 R v "hal_pre_score" with
  | error e => rfl
  | ok hal =>
  cases readCandidates R v with
  | error e => rfl
  | ok candidates =>
  show (if _ then _ else _) = Except.map _ (if _ then _ else _)
  split_ifs with hasks
  · rfl
  · have hvalid : validate (buildIntent fresh v injected goal confidence ambiguity risk hal
        candidates) = .ok () := by
      refine validate_of_asks fun hreq => ?_
      rw [Bool.and_eq_true, not_and, Bool.not_eq_true, Option.isNone_eq_false_iff] at hasks
      exact hasks hreq
    simp only [hvalid]
    rfl

theorem accepted_of_parsed {fresh : Uuid} {raw : String} {v : Value}
    {injected : Option InjectedIntentFields} {s : IntentSchema} (hv : R.fromStr raw = some v)
    (h : parseLlmOutputWithInjection R fresh raw injected = .ok s) :
    Accepted R fresh v injected s := by
  rw [parseLlmOutputWithInjection, hv] at h
  exact (readIntent_ok_iff R).mp h

/-! ## Candidates -/

/-- A number from zero to one. -/
def UnitNumber (R : Reader) (v : Value) : Prop := ∃ x, R.asF64? v = some x ∧ 0 ≤ x ∧ x ≤ 1

/-- The numbers agree, as `f32`s, and the one given is from zero to one. -/
def SameScore (R : Reader) (v : Value) (y : Float32) : Prop :=
  ∃ x, R.asF64? v = some x ∧ (0 ≤ x ∧ x ≤ 1) ∧ y = narrow x

/-- The candidate is the element, with the numbers given there. -/
structure SameCandidate (R : Reader) (ca : Value) (c : CandidateAction) : Prop where
  action : ca.index "action" = .str c.action
  target : ca.index "target" = .str c.target
  confidence : SameScore R (ca.index "confidence") c.confidence
  recencyScore : SameScore R (ca.index "recency_score") c.recencyScore

/-- The candidates are the elements of the array, one for one and in order. -/
def Faithful (R : Reader) (v : Value) (s : IntentSchema) : Prop :=
  ∃ cas, v.index "candidate_actions" = .arr cas ∧
    List.Forall₂ (SameCandidate R) cas s.candidateActions

/-- An element with two strings and two numbers from zero to one. -/
structure WellFormed (R : Reader) (ca : Value) : Prop where
  action : ∃ action, ca.index "action" = .str action
  target : ∃ target, ca.index "target" = .str target
  confidence : UnitNumber R (ca.index "confidence")
  recencyScore : UnitNumber R (ca.index "recency_score")

theorem asStr?_iff {v : Value} {t : String} : v.asStr? = some t ↔ v = .str t := by
  cases v with
  | str u => exact ⟨fun h => congrArg Value.str (Option.some.inj h), fun h => by cases h; rfl⟩
  | _ => exact ⟨fun h => (by cases h), fun h => (by cases h)⟩

theorem asArray?_iff {v : Value} {vs : List Value} : v.asArray? = some vs ↔ v = .arr vs := by
  cases v with
  | arr us => exact ⟨fun h => congrArg Value.arr (Option.some.inj h), fun h => by cases h; rfl⟩
  | _ => exact ⟨fun h => (by cases h), fun h => (by cases h)⟩

theorem asBool?_iff {v : Value} {b : Bool} : v.asBool? = some b ↔ v = .bool b := by
  cases v with
  | bool c => exact ⟨fun h => congrArg Value.bool (Option.some.inj h), fun h => by cases h; rfl⟩
  | _ => exact ⟨fun h => (by cases h), fun h => (by cases h)⟩

theorem readCandidate_eq_some_iff {ca : Value} {c : CandidateAction} :
    readCandidate R ca = some c ↔ ca.index "action" = .str c.action ∧
      ca.index "target" = .str c.target ∧
      (∃ x, R.asF64? (ca.index "confidence") = some x ∧ c.confidence = narrow (clamp01 x)) ∧
      ∃ x, R.asF64? (ca.index "recency_score") = some x ∧
        c.recencyScore = narrow (clamp01 x) := by
  unfold readCandidate
  simp only [Option.bind_eq_bind, Option.bind_eq_some_iff, Option.pure_def, Option.some.injEq,
    asStr?_iff]
  constructor
  · rintro ⟨action, haction, target, htarget, x, hx, y, hy, rfl⟩
    exact ⟨haction, htarget, ⟨x, hx, rfl⟩, y, hy, rfl⟩
  · rintro ⟨haction, htarget, ⟨x, hx, hc⟩, y, hy, hr⟩
    refine ⟨_, haction, _, htarget, x, hx, y, hy, ?_⟩
    rw [← hc, ← hr]

/-- A well-formed element is kept as it is. -/
theorem readCandidate_of_wellFormed {ca : Value} (h : WellFormed R ca) :
    ∃ c, readCandidate R ca = some c ∧ SameCandidate R ca c := by
  obtain ⟨action, haction⟩ := h.action
  obtain ⟨target, htarget⟩ := h.target
  obtain ⟨x, hx, hxunit⟩ := h.confidence
  obtain ⟨y, hy, hyunit⟩ := h.recencyScore
  refine ⟨⟨action, target, narrow x, narrow y⟩, ?_, haction, htarget, ⟨x, hx, hxunit, rfl⟩,
    ⟨y, hy, hyunit, rfl⟩⟩
  refine readCandidate_eq_some_iff.mpr ⟨haction, htarget, ⟨x, hx, ?_⟩, y, hy, ?_⟩
  · rw [clamp01_of_unit hxunit]
  · rw [clamp01_of_unit hyunit]

theorem forall₂_of_wellFormed {cas : List Value} (h : ∀ ca ∈ cas, WellFormed R ca) :
    List.Forall₂ (SameCandidate R) cas (cas.filterMap (readCandidate R)) := by
  induction cas with
  | nil => exact .nil
  | cons ca cas ih =>
      obtain ⟨c, hread, hsame⟩ := readCandidate_of_wellFormed (h ca List.mem_cons_self)
      rw [List.filterMap_cons_some hread]
      exact .cons hsame (ih fun ca' hmem => h ca' (List.mem_cons_of_mem _ hmem))

theorem wellFormed_of_same {ca : Value} {c : CandidateAction} (h : SameCandidate R ca c) :
    WellFormed R ca := by
  obtain ⟨x, hx, hxunit, -⟩ := h.confidence
  obtain ⟨y, hy, hyunit, -⟩ := h.recencyScore
  exact ⟨⟨_, h.action⟩, ⟨_, h.target⟩, ⟨x, hx, hxunit⟩, ⟨y, hy, hyunit⟩⟩

/-- The candidates of an accepted intent are the array's elements exactly when each of these
is well formed. -/
theorem candidates_faithful_iff {fresh : Uuid} {raw : String} {v : Value}
    {injected : Option InjectedIntentFields} {s : IntentSchema} (hv : R.fromStr raw = some v)
    (h : parseLlmOutputWithInjection R fresh raw injected = .ok s) :
    Faithful R v s ↔
      ∀ cas, v.index "candidate_actions" = .arr cas → ∀ ca ∈ cas, WellFormed R ca := by
  obtain ⟨cas, hcas, hs⟩ := (accepted_of_parsed hv h).candidateActions
  rw [asArray?_iff] at hcas
  constructor
  · rintro ⟨cas', hcas', hall⟩ cas'' hcas'' ca hca
    rw [hcas'] at hcas''
    cases hcas''
    obtain ⟨k, hk, rfl⟩ := List.getElem_of_mem hca
    have hk' : k < s.candidateActions.length := hall.length_eq ▸ hk
    exact wellFormed_of_same (List.forall₂_iff_get.mp hall |>.2 k hk hk')
  · intro hall
    refine ⟨cas, hcas, ?_⟩
    rw [hs]
    exact forall₂_of_wellFormed (hall cas hcas)

/-! Values to try this on: a request for a directory. -/

/-- A number as a value. -/
def number (text : String) (h : Json.isNumber text.toList = true := by decide) : Value :=
  .num ⟨text, h⟩

theorem isNumber_tenths (d : Nat) :
    Json.isNumber (String.ofList ['0', '.', Text.hexDigit (d % 10)]).toList = true := by
  have hall : ∀ e < 10,
      Json.isNumber (String.ofList ['0', '.', Text.hexDigit e]).toList = true := by
    decide
  exact hall _ (Nat.mod_lt d (by decide))

/-- So many tenths, below ten. -/
def tenths (d : Nat) : Value :=
  .num ⟨String.ofList ['0', '.', Text.hexDigit (d % 10)], isNumber_tenths d⟩

def createDir (ambiguity : Value) (candidates : List Value) (rest : List (String × Value)) :
    Value :=
  .obj ([("goal", .str "create_dir"), ("domain", .null), ("confidence", number "0.9"),
    ("ambiguity_score", ambiguity), ("risk_estimate", number "0.1"), ("required_context", .arr []),
    ("candidate_actions", .arr candidates), ("disambiguation_required", .bool false),
    ("disambiguation_question", .null), ("hal_pre_score", number "0.1")] ++ rest)

def candidate (confidence : Value) : Value :=
  .obj [("action", .str "create_dir"), ("target", .str "/tmp/test"), ("confidence", confidence),
    ("recency_score", number "0.5")]

def session : SessionContext := ⟨none, [], "12:00", none⟩

theorem parsed_of_read {v : Value} {userInput : String} {s : IntentSchema} (hdepth : v.depth ≤ 127)
    (hnums : v.numsAll Reader.sample.inRange = true)
    (h : readIntent Reader.sample .nil v (some ⟨userInput, session⟩) = .ok s) :
    parseLlmOutputWithContext Reader.sample .nil v.print userInput session = .ok s := by
  unfold parseLlmOutputWithContext parseLlmOutputWithInjection
  rw [Reader.sample.fromStr_print hdepth hnums]
  exact h

/-- The text of a value that passes the checks is accepted. -/
theorem exists_parsed (v : Value) (userInput : String) (hdepth : v.depth ≤ 127)
    (hnums : v.numsAll Reader.sample.inRange = true)
    (h : (readIntent Reader.sample .nil v (some ⟨userInput, session⟩)).toOption.isSome = true) :
    Reader.sample.fromStr v.print = some v ∧
      ∃ s, parseLlmOutputWithContext Reader.sample .nil v.print userInput session = .ok s := by
  refine ⟨Reader.sample.fromStr_print hdepth hnums, ?_⟩
  cases hread : readIntent Reader.sample .nil v (some ⟨userInput, session⟩) with
  | error e =>
      rw [hread] at h
      cases h
  | ok s => exact ⟨s, parsed_of_read hdepth hnums hread⟩

def oneCandidate : Value := createDir (number "0.1") [candidate (number "0.9")] []

/-- One candidate with a confidence of 1.5, and one without a target. -/
def twoMalformed : Value :=
  createDir (number "0.1") [candidate (number "1.5"), .obj [("action", .str "create_dir")]] []

theorem candidates_faithful_iff_one : ∃ s,
    parseLlmOutputWithInjection Reader.sample .nil oneCandidate.print (some ⟨"mkdir", session⟩) =
      .ok s ∧ Faithful Reader.sample oneCandidate s := by
  obtain ⟨hv, s, hs⟩ := exists_parsed oneCandidate "mkdir" (by decide) (by decide)
    (by decide)
  refine ⟨s, hs, (candidates_faithful_iff hv hs).mpr ?_⟩
  rintro cas hcas ca hca
  cases hcas
  obtain rfl := List.mem_singleton.mp hca
  exact ⟨⟨_, rfl⟩, ⟨_, rfl⟩, ⟨0.9, by decide, by decide⟩,
    ⟨0.5, by decide, by decide⟩⟩

/-- Accepted, with one candidate that is certain of itself. -/
theorem not_faithful_clamped : ∃ s,
    parseLlmOutputWithInjection Reader.sample .nil twoMalformed.print (some ⟨"mkdir", session⟩) =
      .ok s ∧
    s.candidateActions = [⟨"create_dir", "/tmp/test", 1, narrow 0.5⟩] ∧
    ¬ Faithful Reader.sample twoMalformed s := by
  obtain ⟨hv, s, hs⟩ := exists_parsed twoMalformed "mkdir" (by decide) (by decide)
    (by decide)
  have hcandidates : s.candidateActions = [⟨"create_dir", "/tmp/test", 1, narrow 0.5⟩] := by
    obtain ⟨cas, hcas, hall⟩ := (accepted_of_parsed hv hs).candidateActions
    cases hcas
    rw [hall]
    decide +kernel
  refine ⟨s, hs, hcandidates, ?_⟩
  rintro ⟨cas, hcas, hall⟩
  cases hcas
  rw [hcandidates] at hall
  exact absurd hall.length_eq (by decide)

/-! ## The rules of the prompt -/

/-- All scores of an intent. -/
def IntentSchema.scores (s : IntentSchema) : List Float32 :=
  [s.confidence, s.ambiguityScore, s.riskEstimate, s.halPreScore] ++
    s.candidateActions.flatMap fun c => [c.confidence, c.recencyScore]

/-- The documented rules across the fields of an intent. -/
structure Rules (s : IntentSchema) : Prop where
  asked : 0.6 < s.ambiguityScore ↔ s.disambiguationRequired = true
  question : s.disambiguationRequired = true →
    s.disambiguationQuestion.isSome = true ∧ 2 ≤ s.candidateActions.length
  escalation : s.escalateToCloud = true ↔ s.source ≠ some keywordFallbackSource ∧
    (s.confidence < 0.75 ∨ "cloud_reasoning" ∈ s.requiredContext)
  scores : ∀ x ∈ s.scores, 0 ≤ x ∧ x ≤ 1

/-- The value that is read obeys the rules: flag and ambiguity go together, a choice has two
readable candidates, and an explicit escalation is the one that would have been derived. -/
structure Consistent (R : Reader) (v : Value) : Prop where
  asked : ∀ x, R.asF64? (v.index "ambiguity_score") = some x →
    (0.6 < narrow x ↔ v.index "disambiguation_required" = .bool true)
  candidates : v.index "disambiguation_required" = .bool true →
    ∀ cas, v.index "candidate_actions" = .arr cas →
      2 ≤ cas.countP fun ca => (readCandidate R ca).isSome
  escalation : ∀ flag x, v.index "escalate_to_cloud" = .bool flag →
    R.asF64? (v.index "confidence") = some x →
      flag = escalates none (v.index "source").asStr? (narrow x)
        (v.index "required_context").strings

theorem unit_of_parseF32 {v : Value} {field : String} {y : Float32}
    (h : parseF32 R v field = .ok y) : 0 ≤ y ∧ y ≤ 1 :=
  ((parseF32_ok_iff R).mp h).2

/-- The scores of whatever is accepted are from zero to one. -/
theorem scores_of_accepted {fresh : Uuid} {v : Value} {injected : Option InjectedIntentFields}
    {s : IntentSchema} (h : Accepted R fresh v injected s) : ∀ x ∈ s.scores, 0 ≤ x ∧ x ≤ 1 := by
  intro x hx
  rcases List.mem_append.mp hx with hx | hx
  · simp only [List.mem_cons, List.not_mem_nil, or_false] at hx
    rcases hx with rfl | rfl | rfl | rfl
    · exact unit_of_parseF32 h.confidence
    · exact unit_of_parseF32 h.ambiguityScore
    · exact unit_of_parseF32 h.riskEstimate
    · exact unit_of_parseF32 h.halPreScore
  · obtain ⟨c, hc, hx⟩ := List.mem_flatMap.mp hx
    obtain ⟨cas, -, hall⟩ := h.candidateActions
    rw [hall] at hc
    obtain ⟨ca, -, hread⟩ := List.mem_filterMap.mp hc
    obtain ⟨-, -, ⟨y, hy, hconfidence⟩, z, hz, hrecency⟩ := readCandidate_eq_some_iff.mp hread
    simp only [List.mem_cons, List.not_mem_nil, or_false] at hx
    rcases hx with rfl | rfl
    · rw [hconfidence]
      exact unit_narrow (unit_clamp01 (R.isNaN_asF64? hy))
    · rw [hrecency]
      exact unit_narrow (unit_clamp01 (R.isNaN_asF64? hz))

theorem required_iff {fresh : Uuid} {v : Value} {injected : Option InjectedIntentFields}
    {s : IntentSchema} (h : Accepted R fresh v injected s) :
    s.disambiguationRequired = true ↔ v.index "disambiguation_required" = .bool true := by
  rw [h.disambiguationRequired, ← asBool?_iff]
  cases (v.index "disambiguation_required").asBool? with
  | none => simp
  | some b => simp

/-- What is derived without an explicit flag. -/
theorem escalates_none_iff {source : Option String} {confidence : Float32} {context : List String} :
    escalates none source confidence context = true ↔ source ≠ some keywordFallbackSource ∧
      (confidence < 0.75 ∨ "cloud_reasoning" ∈ context) := by
  unfold escalates
  by_cases hsource : source = some keywordFallbackSource
  · simp [hsource]
  · simp [hsource]

/-- An accepted intent obeys the rules exactly when the value it was read from does. -/
theorem rules_iff {fresh : Uuid} {raw userInput : String} {session : SessionContext} {v : Value}
    {s : IntentSchema} (hv : R.fromStr raw = some v)
    (h : parseLlmOutputWithContext R fresh raw userInput session = .ok s) :
    Rules s ↔ Consistent R v := by
  have haccepted := accepted_of_parsed hv h
  obtain ⟨x, hx, hconfidence⟩ := ((parseF32_ok_iff R).mp haccepted.confidence).1
  obtain ⟨a, ha, hambiguity⟩ := ((parseF32_ok_iff R).mp haccepted.ambiguityScore).1
  obtain ⟨cas, hcas, hcandidates⟩ := haccepted.candidateActions
  have hlength : s.candidateActions.length = cas.countP fun ca => (readCandidate R ca).isSome := by
    rw [hcandidates, List.length_filterMap_eq_countP]
  have hescalates := haccepted.escalateToCloud
  constructor
  · intro hrules
    refine ⟨?_, ?_, ?_⟩
    · intro y hy
      rw [ha] at hy
      cases hy
      rw [← hambiguity, hrules.asked, required_iff haccepted]
    · intro hreq cas' hcas'
      rw [← asArray?_iff, hcas] at hcas'
      cases hcas'
      rw [← hlength]
      exact (hrules.question ((required_iff haccepted).mpr hreq)).2
    · intro flag y hflag hy
      rw [hx] at hy
      cases hy
      rw [asBool?_iff.mpr hflag] at hescalates
      rw [← haccepted.source, ← haccepted.requiredContext, ← hconfidence, Bool.eq_iff_iff,
        escalates_none_iff, ← hrules.escalation, hescalates]
      rfl
  · intro hcons
    refine ⟨?_, ?_, ?_, scores_of_accepted haccepted⟩
    · rw [hambiguity, hcons.asked a ha, required_iff haccepted]
    · intro hreq
      refine ⟨haccepted.asks hreq, ?_⟩
      rw [hlength]
      exact hcons.candidates ((required_iff haccepted).mp hreq) cas (asArray?_iff.mp hcas)
    · rw [← escalates_none_iff, hescalates]
      cases hflag : (v.index "escalate_to_cloud").asBool? with
      | none => rfl
      | some flag =>
          rw [hcons.escalation flag x (asBool?_iff.mp hflag) hx, ← haccepted.source,
            ← haccepted.requiredContext, ← hconfidence]
          rfl

theorem rules_iff_createDir : ∃ s,
    parseLlmOutputWithContext Reader.sample .nil (createDir (number "0.1") [] []).print "mkdir"
      session = .ok s ∧
    (Rules s ↔ Consistent Reader.sample (createDir (number "0.1") [] [])) := by
  obtain ⟨hv, s, hs⟩ := exists_parsed (createDir (number "0.1") [] []) "mkdir" (by decide)
    (by decide) (by decide)
  exact ⟨s, hs, rules_iff hv hs⟩

/-- An ambiguity of 0.9, and no question: accepted. -/
theorem not_rules_ambiguous : ∃ s,
    parseLlmOutputWithContext Reader.sample .nil (createDir (number "0.9") [] []).print "mkdir"
      session = .ok s ∧ ¬ Rules s := by
  obtain ⟨hv, s, hs⟩ := exists_parsed (createDir (number "0.9") [] []) "mkdir" (by decide)
    (by decide) (by decide)
  have haccepted := accepted_of_parsed hv hs
  refine ⟨s, hs, fun hrules => ?_⟩
  obtain ⟨x, hx, hscore⟩ := ((parseF32_ok_iff _).mp haccepted.ambiguityScore).1
  have hnumber : Reader.sample.asF64? ((createDir (number "0.9") [] []).index "ambiguity_score") =
      some 0.9 := by decide
  obtain rfl := Option.some.inj (hx.symm.trans hnumber)
  have habove : (0.6 : Float32) < s.ambiguityScore := by
    rw [hscore]
    decide
  cases (required_iff haccepted).mp (hrules.asked.mp habove)

/-! ## Members the caller stamps -/

/-- The checks pass: what they ask of the members they look at. -/
structure Readable (R : Reader) (v : Value) : Prop where
  goal : ∃ goal, v.index "goal" = .str goal ∧ Text.trim goal ≠ ""
  scores : ∀ field ∈ ["confidence", "ambiguity_score", "risk_estimate", "hal_pre_score"],
    ∃ x, R.asF64? (v.index field) = some x ∧ 0 ≤ narrow x ∧ narrow x ≤ 1
  candidates : ∃ cas, v.index "candidate_actions" = .arr cas
  question : v.index "disambiguation_required" = .bool true →
    ∃ question, v.index "disambiguation_question" = .str question

/-- The result, but for the id of the intent. -/
def forgetId (r : Except ParseError IntentSchema) : Except ParseError IntentSchema :=
  r.map ({ · with intentId := Uuid.nil })

theorem exists_parseF32_iff {v : Value} {field : String} :
    (∃ y, parseF32 R v field = .ok y) ↔
      ∃ x, R.asF64? (v.index field) = some x ∧ 0 ≤ narrow x ∧ narrow x ≤ 1 := by
  constructor
  · rintro ⟨y, hy⟩
    obtain ⟨⟨x, hx, rfl⟩, hunit⟩ := (parseF32_ok_iff R).mp hy
    exact ⟨x, hx, hunit⟩
  · rintro ⟨x, hx, hunit⟩
    exact ⟨narrow x, (parseF32_ok_iff R).mpr ⟨⟨x, hx, rfl⟩, hunit⟩⟩

theorem exists_check_iff {v : Value} : (∃ c, check R v = .ok c) ↔ Readable R v := by
  have hread : (∃ c, check R v = .ok c) ↔
      ∃ s, Accepted R .nil v (some ⟨"", ⟨none, [], "", none⟩⟩) s := by
    simp only [← readIntent_ok_iff, readIntent_eq]
    cases check R v with
    | error e => exact ⟨fun ⟨_, h⟩ => (by cases h), fun ⟨_, h⟩ => (by cases h)⟩
    | ok c => exact ⟨fun _ => ⟨_, rfl⟩, fun _ => ⟨c, rfl⟩⟩
  rw [hread]
  constructor
  · rintro ⟨s, h⟩
    refine ⟨⟨s.goal, asStr?_iff.mp h.goal, h.notBlank⟩, ?_, ?_, ?_⟩
    · intro field hfield
      simp only [List.mem_cons, List.not_mem_nil, or_false] at hfield
      refine exists_parseF32_iff.mp ?_
      rcases hfield with rfl | rfl | rfl | rfl
      · exact ⟨_, h.confidence⟩
      · exact ⟨_, h.ambiguityScore⟩
      · exact ⟨_, h.riskEstimate⟩
      · exact ⟨_, h.halPreScore⟩
    · obtain ⟨cas, hcas, -⟩ := h.candidateActions
      exact ⟨cas, asArray?_iff.mp hcas⟩
    · intro hreq
      have hasks := h.asks ((required_iff h).mpr hreq)
      rw [h.disambiguationQuestion] at hasks
      obtain ⟨q, hq⟩ := Option.isSome_iff_exists.mp hasks
      exact ⟨q, asStr?_iff.mp hq⟩
  · intro h
    obtain ⟨goal, hgoal, hblank⟩ := h.goal
    have hscore : ∀ field ∈ ["confidence", "ambiguity_score", "risk_estimate", "hal_pre_score"],
        ∃ y, parseF32 R v field = .ok y := fun field hfield =>
      exists_parseF32_iff.mpr (h.scores field hfield)
    obtain ⟨confidence, hconfidence⟩ := hscore "confidence" (by decide)
    obtain ⟨ambiguity, hambiguity⟩ := hscore "ambiguity_score" (by decide)
    obtain ⟨risk, hrisk⟩ := hscore "risk_estimate" (by decide)
    obtain ⟨hal, hhal⟩ := hscore "hal_pre_score" (by decide)
    obtain ⟨cas, hcas⟩ := h.candidates
    let s := buildIntent .nil v (some ⟨"", ⟨none, [], "", none⟩⟩) goal confidence ambiguity risk hal
      (cas.filterMap (readCandidate R))
    refine ⟨s, asStr?_iff.mpr hgoal, hblank, hconfidence, hambiguity, hrisk, hhal,
      ⟨cas, asArray?_iff.mpr hcas, rfl⟩, rfl, rfl, ?_, rfl, rfl, rfl, rfl, rfl, rfl, rfl⟩
    intro hreq
    have hflag : v.index "disambiguation_required" = .bool true := by
      rw [← asBool?_iff]
      change (v.index "disambiguation_required").asBool?.getD false = true at hreq
      cases hb : (v.index "disambiguation_required").asBool? with
      | none =>
          rw [hb] at hreq
          cases hreq
      | some b =>
          rw [hb] at hreq
          exact congrArg some hreq
    obtain ⟨q, hq⟩ := h.question hflag
    show (v.index "disambiguation_question").asStr?.isSome = true
    rw [hq]
    rfl

section Agreement

variable {v w : Value}

/-- The checks look at no member the caller stamps. -/
theorem check_congr (h : ∀ key, key ∉ injectedFields → v.index key = w.index key) :
    check R v = check R w := by
  simp only [check, readGoal, parseF32, readCandidates, h "goal" (by decide),
    h "confidence" (by decide), h "ambiguity_score" (by decide), h "risk_estimate" (by decide),
    h "hal_pre_score" (by decide), h "candidate_actions" (by decide),
    h "disambiguation_required" (by decide), h "disambiguation_question" (by decide)]

/-- Building looks at one of them. -/
theorem build_congr (h : ∀ key, key ∉ injectedFields → v.index key = w.index key)
    (hsource : (v.index "source").asStr? = (w.index "source").asStr?) (c : Checked)
    (fresh : Uuid) (caller : InjectedIntentFields) :
    c.build fresh v (some caller) = c.build fresh w (some caller) := by
  simp only [Checked.build, buildIntent, stampedId, stampedInput, stampedSession, hsource,
    h "domain" (by decide), h "required_context" (by decide), h "escalate_to_cloud" (by decide),
    h "disambiguation_required" (by decide), h "disambiguation_question" (by decide)]

end Agreement

/-- Two objects that differ in members the caller stamps at most: the same result, but for the
id, exactly when they agree on the source, or do not pass the checks. -/
theorem unmoved_iff {raw₁ raw₂ userInput : String} {session : SessionContext}
    {fresh₁ fresh₂ : Uuid} {fs gs : List (String × Value)}
    (hv : R.fromStr raw₁ = some (.obj fs)) (hw : R.fromStr raw₂ = some (.obj gs))
    (hagree : ∀ key, key ∉ injectedFields → (Value.obj fs).get? key = (Value.obj gs).get? key) :
    forgetId (parseLlmOutputWithContext R fresh₁ raw₁ userInput session) =
        forgetId (parseLlmOutputWithContext R fresh₂ raw₂ userInput session) ↔
      (Readable R (.obj fs) → ((Value.obj fs).index "source").asStr? =
        ((Value.obj gs).index "source").asStr?) := by
  have hindex : ∀ key, key ∉ injectedFields →
      (Value.obj fs).index key = (Value.obj gs).index key := by
    intro key hkey
    rw [Value.index, Value.index, hagree key hkey]
  simp only [parseLlmOutputWithContext, parseLlmOutputWithInjection, hv, hw, readIntent_eq]
  rw [← exists_check_iff, check_congr hindex]
  cases check R (.obj gs) with
  | error e => exact ⟨fun _ ⟨_, h⟩ => (by cases h), fun _ => rfl⟩
  | ok c =>
      constructor
      · intro h _
        exact congrArg IntentSchema.source (Except.ok.inj h)
      · intro h
        show Except.ok { c.build fresh₁ (.obj fs) _ with intentId := Uuid.nil } = _
        rw [build_congr hindex (h ⟨c, rfl⟩)]
        rfl

/-- Certain of nothing, and silent on escalation. -/
def unsure (rest : List (String × Value)) : Value :=
  .obj ([("goal", .str "create_dir"), ("confidence", number "0.5"),
    ("ambiguity_score", number "0.1"), ("risk_estimate", number "0.1"),
    ("candidate_actions", .arr []), ("hal_pre_score", number "0.1")] ++ rest)

theorem unmoved_iff_named :
    forgetId (parseLlmOutputWithContext Reader.sample .nil
        (unsure [("raw_input", .str "rm")]).print "mkdir" session) =
      forgetId (parseLlmOutputWithContext Reader.sample (Uuid.numbered 1) (unsure []).print "mkdir"
        session) := by
  have hv := Reader.sample.fromStr_print (v := unsure [("raw_input", .str "rm")]) (by decide)
    (by decide)
  have hw := Reader.sample.fromStr_print (v := unsure []) (by decide) (by decide)
  refine (unmoved_iff hv hw fun key hkey => ?_).mpr fun _ => rfl
  have hne : (key == "raw_input") = false := by
    rw [beq_eq_false_iff_ne]
    rintro rfl
    exact hkey (by decide)
  show List.lookup key (("raw_input", _) :: _) = _
  rw [List.lookup_cons, hne]
  rfl

/-- A source in the blob is believed, and keeps the intent from escalating. -/
theorem not_unmoved_source :
    (∀ key, key ∉ injectedFields →
      (unsure [("source", .str "keyword_fallback")]).get? key = (unsure []).get? key) ∧
    ∃ s t, parseLlmOutputWithContext Reader.sample .nil
        (unsure [("source", .str "keyword_fallback")]).print "mkdir" session = .ok s ∧
      parseLlmOutputWithContext Reader.sample .nil (unsure []).print "mkdir" session = .ok t ∧
      s.source = some "keyword_fallback" ∧ t.source = none ∧
      s.escalateToCloud = false ∧ t.escalateToCloud = true ∧
      forgetId (.ok s) ≠ forgetId (.ok t) := by
  refine ⟨fun key hkey => ?_, ?_⟩
  · have hne : (key == "source") = false := by
      rw [beq_eq_false_iff_ne]
      rintro rfl
      exact hkey (by decide)
    show List.lookup key (("source", _) :: _) = _
    rw [List.lookup_cons, hne]
    rfl
  · obtain ⟨hv, s, hs⟩ := exists_parsed (unsure [("source", .str "keyword_fallback")]) "mkdir"
      (by decide) (by decide) (by decide)
    obtain ⟨hw, t, ht⟩ := exists_parsed (unsure []) "mkdir" (by decide) (by decide)
      (by decide)
    have hsa := accepted_of_parsed hv hs
    have hta := accepted_of_parsed hw ht
    refine ⟨s, t, hs, ht, hsa.source, hta.source, ?_, ?_, fun h => ?_⟩
    · rw [hsa.escalateToCloud, hsa.source]
      rfl
    rotate_left
    · have hsource := congrArg IntentSchema.source (Except.ok.inj h)
      change s.source = t.source at hsource
      rw [hsa.source, hta.source] at hsource
      cases hsource
    · rw [hta.escalateToCloud, hta.source]
      obtain ⟨x, hx, hconfidence⟩ := ((parseF32_ok_iff _).mp hta.confidence).1
      have hnumber : Reader.sample.asF64? ((unsure []).index "confidence") = some 0.5 := by
        decide
      obtain rfl := Option.some.inj (hx.symm.trans hnumber)
      rw [hconfidence, hta.requiredContext]
      decide

end IntentEngine

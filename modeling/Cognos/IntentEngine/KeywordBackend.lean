/-
# `Cognos.IntentEngine.KeywordBackend` — the parser without its model

The backends of `backends/fallback.rs`, and what `IntentParser::parse` makes of their answers.
The keyword backend writes an intent with one candidate, whose target comes out of the words it
was given.  These are the normalized ones: without punctuation, so that no path is left in them.

How a package writes an `f32` is a parameter; of a number from zero to one it is assumed that
its text is one too.

    read_json       an intent that is written is read with its goal and its candidates
    parse_fallback  what the parser answers when the model is down
    path_kept_iff   which paths the target still names
-/
import Mathlib
import Cognos.IntentEngine.Fallback
import Cognos.IntentEngine.LlmOutputSchema

namespace IntentEngine

open Json (Value Reader NumLit)
open FloatText (narrow clamp01)

/-! ## Words -/

section Words

variable {s w : String} {c : Char}

theorem mem_splitOnP {p : Char → Bool} {cs piece : List Char} (h : piece ∈ cs.splitOnP p) :
    ∀ c ∈ piece, c ∈ cs ∧ p c = false := by
  induction cs generalizing piece with
  | nil =>
      rw [List.splitOnP_nil, List.mem_singleton] at h
      rw [h]
      intro c hc
      cases hc
  | cons d cs ih =>
      intro c hc
      rw [List.splitOnP_cons_eq_if_modifyHead] at h
      split_ifs at h with hd
      · rcases List.mem_cons.mp h with rfl | h
        · cases hc
        · obtain ⟨hmem, hp⟩ := ih h c hc
          exact ⟨List.mem_cons_of_mem _ hmem, hp⟩
      · cases hsplit : cs.splitOnP p with
        | nil => exact absurd hsplit (List.splitOnP_ne_nil p cs)
        | cons first rest =>
            rw [hsplit] at h ih
            rcases List.mem_cons.mp h with rfl | h
            · rcases List.mem_cons.mp hc with rfl | hc
              · exact ⟨List.mem_cons_self, Bool.eq_false_of_not_eq_true hd⟩
              · obtain ⟨hmem, hp⟩ := ih List.mem_cons_self c hc
                exact ⟨List.mem_cons_of_mem _ hmem, hp⟩
            · obtain ⟨hmem, hp⟩ := ih (List.mem_cons_of_mem _ h) c hc
              exact ⟨List.mem_cons_of_mem _ hmem, hp⟩

/-- A word is not empty, and has no white space. -/
theorem mem_splitWhitespace (h : w ∈ splitWhitespace s) :
    w.toList ≠ [] ∧ ∀ c ∈ w.toList, c ∈ s.toList ∧ Text.isWhitespace c = false := by
  obtain ⟨piece, hpiece, rfl⟩ := List.mem_map.mp h
  obtain ⟨hpiece, hne⟩ := List.mem_filter.mp hpiece
  rw [String.toList_ofList]
  exact ⟨of_decide_eq_true hne, mem_splitOnP hpiece⟩

theorem of_mem_intercalate {sep : String} {ws : List String}
    (h : c ∈ (String.intercalate sep ws).toList) : c ∈ sep.toList ∨ ∃ w ∈ ws, c ∈ w.toList := by
  induction ws with
  | nil => simp at h
  | cons v ws ih =>
      cases ws with
      | nil =>
          rw [String.intercalate_singleton] at h
          exact .inr ⟨v, List.mem_cons_self, h⟩
      | cons w ws =>
          rw [String.intercalate_cons_cons, String.toList_append, String.toList_append,
            List.mem_append, List.mem_append] at h
          rcases h with (hv | hsep) | hrest
          · exact .inr ⟨v, List.mem_cons_self, hv⟩
          · exact .inl hsep
          · rcases ih hrest with hsep | ⟨u, hu, hc⟩
            · exact .inl hsep
            · exact .inr ⟨u, List.mem_cons_of_mem _ hu, hc⟩

theorem mem_intercalate_head {sep : String} {ws : List String} (h : c ∈ w.toList) :
    c ∈ (String.intercalate sep (w :: ws)).toList := by
  cases ws with
  | nil =>
      rw [String.intercalate_singleton]
      exact h
  | cons v ws =>
      rw [String.intercalate_cons_cons, String.toList_append, String.toList_append]
      exact List.mem_append_left _ (List.mem_append_left _ h)

/-- Normalized words have no punctuation. -/
theorem not_punctuation_normalize (h : c ∈ (normalize s).toList) :
    isAsciiPunctuation c = false := by
  rw [normalize] at h
  rcases of_mem_intercalate h with hblank | ⟨w, hw, hc⟩
  · have hc : c = ' ' := by simpa using hblank
    rw [hc]
    rfl
  · have hmem := ((mem_splitWhitespace hw).2 c hc).1
    rw [String.toList_ofList, List.mem_map] at hmem
    obtain ⟨d, -, rfl⟩ := hmem
    split_ifs with hd
    · rfl
    · exact Bool.eq_false_of_not_eq_true hd

theorem trim_normalize (h : normalize s ≠ "") : Text.trim (normalize s) ≠ "" := by
  rw [normalize] at h ⊢
  cases hws : splitWhitespace (String.ofList ((Text.toLowercase (Text.trim s)).toList.map
      fun c => if isAsciiPunctuation c then ' ' else c)) with
  | nil =>
      rw [hws] at h
      exact absurd String.intercalate_nil h
  | cons w ws =>
      obtain ⟨hne, hword⟩ := mem_splitWhitespace (hws ▸ List.mem_cons_self : w ∈ _)
      obtain ⟨c, cs, hc⟩ := List.exists_cons_of_ne_nil hne
      have hmem : c ∈ w.toList := hc ▸ List.mem_cons_self
      exact Text.trim_ne_empty (mem_intercalate_head hmem) (hword c hmem).2

/-- No path is found in normalized words, whatever their case. -/
theorem find_normalize : Text.find (Text.toLowercase (normalize s)) "/tmp" = none := by
  rw [Text.find_eq_none_iff, ← Bool.not_eq_true, Text.contains_toLowercase_iff noSigma_tmp]
  rintro ⟨pre, post, happend⟩
  have hslash : "/tmp".toList = ['/', 't', 'm', 'p'] := by simp
  rw [hslash, List.append_assoc, List.cons_append] at happend
  obtain ⟨front, back, hsplit, -, -⟩ := Text.split_of_lower happend.symm
  have hmem : '/' ∈ (normalize s).toList := by
    rw [hsplit]
    exact List.mem_append_right _ List.mem_cons_self
  cases not_punctuation_normalize hmem

/-- The target that is extracted from normalized words. -/
def normalizedTarget (action words : String) : String :=
  if action = "create_dir" then
    if Text.contains (Text.toLowercase words) "test" then "/tmp/test" else "/tmp/cognos-test"
  else words

/-- Nothing is cut out of normalized words. -/
theorem extractTarget_normalize (action : String) :
    extractTargetForAction action (normalize s) =
      some (normalizedTarget action (normalize s)) := by
  rcases eq_or_ne action "create_dir" with rfl | haction
  · rw [normalizedTarget, if_pos rfl]
    split_ifs with htest
    · exact extractTarget_test htest
    · exact (extractTarget_other htest).1 find_normalize
  · rw [normalizedTarget, if_neg haction, extractTargetForAction, if_neg haction]

end Words

/-! ## Intents as JSON -/

section Text

variable (printF32 : Float32 → NumLit)

def scoreJson (x : Float32) : Value := if x.isFinite then .num (printF32 x) else .null

def optionJson : Option String → Value
  | some s => .str s
  | none => .null

def CandidateAction.json (c : CandidateAction) : Value :=
  .obj [("action", .str c.action), ("target", .str c.target),
    ("confidence", scoreJson printF32 c.confidence),
    ("recency_score", scoreJson printF32 c.recencyScore)]

def SessionContext.json (session : SessionContext) : Value :=
  .obj [("last_active_domain", optionJson session.lastActiveDomain),
    ("last_active_files", .arr (session.lastActiveFiles.map .str)),
    ("current_time", .str session.currentTime),
    ("time_since_last_session", optionJson session.timeSinceLastSession)]

/-- The source is left out where there is none. -/
def IntentSchema.json (s : IntentSchema) : Value :=
  .obj ([("intent_id", .str s.intentId.text), ("raw_input", .str s.rawInput),
      ("goal", .str s.goal), ("domain", optionJson s.domain),
      ("confidence", scoreJson printF32 s.confidence),
      ("ambiguity_score", scoreJson printF32 s.ambiguityScore),
      ("risk_estimate", scoreJson printF32 s.riskEstimate),
      ("required_context", .arr (s.requiredContext.map .str)),
      ("candidate_actions", .arr (s.candidateActions.map fun c => c.json printF32)),
      ("disambiguation_required", .bool s.disambiguationRequired),
      ("disambiguation_question", optionJson s.disambiguationQuestion),
      ("session_context", s.sessionContext.json),
      ("hal_pre_score", scoreJson printF32 s.halPreScore),
      ("escalate_to_cloud", .bool s.escalateToCloud)] ++
    (s.source.map fun source => ("source", Value.str source)).toList)

end Text

/-! ## Backends -/

/-- A backend; `none` is a panic. -/
abbrev Infer := String → SessionContext → Option (Except String String)

namespace KeywordBackend

def certainConfidence : Float32 := 0.4

def uncertainConfidence : Float32 := 0.25

/-- Classify the words and assemble a minimal intent; its id is a fresh one. -/
def buildIntent (fresh : Uuid) (input : String) (session : SessionContext) :
    Option IntentSchema := do
  let goal := (classify input).1
  let certain := (classify input).2
  let confidence := if certain then certainConfidence else uncertainConfidence
  let target ← extractTargetForAction goal input
  return {
    intentId := fresh
    rawInput := input
    goal := goal
    domain := session.lastActiveDomain
    confidence := confidence
    ambiguityScore := if certain then 0.3 else 0.8
    riskEstimate := baseRisk goal
    requiredContext := []
    candidateActions := [⟨goal, target, confidence, 0⟩]
    disambiguationRequired := !certain
    disambiguationQuestion := if certain then none else
      some "I couldn't confidently interpret that — could you rephrase or add detail?"
    sessionContext := session
    halPreScore := baseRisk goal
    escalateToCloud := false
    source := some keywordFallbackSource }

def infer (printF32 : Float32 → NumLit) (fresh : Uuid) : Infer := fun words session =>
  if Text.trim words = "" then
    some (.error "keyword fallback: empty input, nothing to classify")
  else (buildIntent fresh words session).map fun intent => .ok (intent.json printF32).print

end KeywordBackend

/-- `primary`, and where it fails the keyword backend. -/
def FallbackBackend.infer (primary : String → SessionContext → Except String String)
    (keyword : Infer) : Infer := fun words session =>
  match primary words session with
  | .ok output => some (.ok output)
  | .error primaryErr => (keyword words session).map fun result =>
      result.mapError fun keywordErr => "intent inference failed: primary backend (" ++
        primaryErr ++ "); keyword fallback also failed (" ++ keywordErr ++ ")"

/-! ## What is written is read -/

section Read

variable {R : Reader} {printF32 : Float32 → NumLit}

/-- The text of a number from zero to one is one too. -/
def PrintsUnit (printF32 : Float32 → NumLit) : Prop :=
  ∀ x, 0 ≤ x ∧ x ≤ 1 → 0 ≤ (printF32 x).value ∧ (printF32 x).value ≤ 1

theorem isFinite_of_unit {x : Float32} (h : 0 ≤ x ∧ x ≤ 1) : x.isFinite = true := by
  rw [← FloatText.unit_iff32] at h
  show x.toModel.unpack.isFinite = true
  generalize x.toModel.unpack = u at h
  cases u with
  | infinity s => exact h.elim
  | notANumber => exact h.elim
  | zero s => rfl
  | finite s m e hm => rfl

/-- A score that is written is read as a number from zero to one. -/
theorem read_scoreJson (hprint : PrintsUnit printF32) {x : Float32} (h : 0 ≤ x ∧ x ≤ 1) :
    Fits R 0 (scoreJson printF32 x) ∧
      ∃ y, R.asF64? (scoreJson printF32 x) = some y ∧ 0 ≤ y ∧ y ≤ 1 := by
  obtain ⟨hlow, hhigh⟩ := hprint x h
  obtain ⟨y, hy, hunit⟩ := R.unit_asF64 (printF32 x) hlow hhigh
  rw [scoreJson, if_pos (isFinite_of_unit h)]
  refine ⟨⟨Nat.zero_le _, ?_⟩, y, hy, hunit⟩
  show R.inRange (printF32 x) = true
  rw [Reader.inRange, hy]
  rfl

theorem fits_str (n : Nat) (s : String) : Fits R n (.str s) := ⟨Nat.zero_le _, rfl⟩

theorem fits_optionJson (n : Nat) (s : Option String) : Fits R n (optionJson s) := by
  cases s with
  | none => exact ⟨Nat.zero_le _, rfl⟩
  | some s => exact fits_str n s

theorem Fits.mono {n m : Nat} {v : Value} (h : Fits R n v) (hle : n ≤ m) : Fits R m v :=
  ⟨h.1.trans hle, h.2⟩

theorem fits_strings (n : Nat) (ss : List String) : Fits R (n + 1) (.arr (ss.map .str)) := by
  refine fits_arr ?_
  intro v hv
  obtain ⟨s, -, rfl⟩ := List.mem_map.mp hv
  exact fits_str n s

theorem fits_session (session : SessionContext) : Fits R 2 session.json := by
  refine fits_obj ?_
  simp only [List.forall_mem_cons, List.not_mem_nil, false_imp_iff, implies_true, and_true]
  exact ⟨fits_optionJson _ _, fits_strings _ _, fits_str _ _, fits_optionJson _ _⟩

theorem fits_candidateJson (hprint : PrintsUnit printF32) {c : CandidateAction}
    (hconfidence : 0 ≤ c.confidence ∧ c.confidence ≤ 1)
    (hrecency : 0 ≤ c.recencyScore ∧ c.recencyScore ≤ 1) : Fits R 1 (c.json printF32) := by
  refine fits_obj ?_
  simp only [List.forall_mem_cons, List.not_mem_nil, false_imp_iff, implies_true, and_true]
  exact ⟨fits_str _ _, fits_str _ _, (read_scoreJson hprint hconfidence).1,
    (read_scoreJson hprint hrecency).1⟩

variable {s : IntentSchema}

theorem unit_candidate (hscores : ∀ x ∈ s.scores, 0 ≤ x ∧ x ≤ 1) {c : CandidateAction}
    (hc : c ∈ s.candidateActions) :
    (0 ≤ c.confidence ∧ c.confidence ≤ 1) ∧ 0 ≤ c.recencyScore ∧ c.recencyScore ≤ 1 := by
  have hmem : ∀ x ∈ [c.confidence, c.recencyScore], x ∈ s.scores := fun x hx =>
    List.mem_append_right _ (List.mem_flatMap.mpr ⟨c, hc, hx⟩)
  exact ⟨hscores _ (hmem _ List.mem_cons_self),
    hscores _ (hmem _ (List.mem_cons_of_mem _ List.mem_cons_self))⟩

theorem fits_json (hprint : PrintsUnit printF32) (hscores : ∀ x ∈ s.scores, 0 ≤ x ∧ x ≤ 1) :
    Fits R 3 (s.json printF32) := by
  have hscore : ∀ x ∈ s.scores, Fits R 2 (scoreJson printF32 x) := fun x hx =>
    (read_scoreJson hprint (hscores x hx)).1.mono (Nat.zero_le _)
  have hcandidates :
      Fits R 2 (.arr (s.candidateActions.map fun c => c.json printF32)) := by
    refine fits_arr ?_
    intro v hv
    obtain ⟨c, hc, rfl⟩ := List.mem_map.mp hv
    obtain ⟨hconfidence, hrecency⟩ := unit_candidate hscores hc
    exact fits_candidateJson hprint hconfidence hrecency
  have hsource : ∀ f ∈ (s.source.map fun source => ("source", Value.str source)).toList,
      Fits R 2 f.2 := by
    intro f hf
    obtain ⟨source, -, rfl⟩ := Option.map_eq_some_iff.mp (Option.mem_toList.mp hf)
    exact fits_str _ _
  refine fits_obj ?_
  simp only [List.forall_mem_append, List.forall_mem_cons, List.not_mem_nil, false_imp_iff,
    implies_true, and_true]
  refine ⟨⟨fits_str _ _, fits_str _ _, fits_str _ _, fits_optionJson _ _,
    hscore _ (by simp [IntentSchema.scores]), hscore _ (by simp [IntentSchema.scores]),
    hscore _ (by simp [IntentSchema.scores]), fits_strings _ _, hcandidates,
    ⟨Nat.zero_le _, rfl⟩, fits_optionJson _ _, fits_session _,
    hscore _ (by simp [IntentSchema.scores]), ⟨Nat.zero_le _, rfl⟩⟩, hsource⟩

/-- The members of the written object, by name. -/
theorem index_json (printF32 : Float32 → NumLit) (s : IntentSchema) :
    (s.json printF32).index "goal" = .str s.goal ∧
    (s.json printF32).index "confidence" = scoreJson printF32 s.confidence ∧
    (s.json printF32).index "ambiguity_score" = scoreJson printF32 s.ambiguityScore ∧
    (s.json printF32).index "risk_estimate" = scoreJson printF32 s.riskEstimate ∧
    (s.json printF32).index "hal_pre_score" = scoreJson printF32 s.halPreScore ∧
    (s.json printF32).index "candidate_actions" =
      .arr (s.candidateActions.map fun c => c.json printF32) ∧
    (s.json printF32).index "disambiguation_required" = .bool s.disambiguationRequired ∧
    (s.json printF32).index "disambiguation_question" = optionJson s.disambiguationQuestion := by
  unfold IntentSchema.json
  cases s.source with
  | none => exact ⟨rfl, rfl, rfl, rfl, rfl, rfl, rfl, rfl⟩
  | some source => exact ⟨rfl, rfl, rfl, rfl, rfl, rfl, rfl, rfl⟩

theorem exists_parseF32 (hprint : PrintsUnit printF32) {v : Value} {field : String} {x : Float32}
    (hfield : v.index field = scoreJson printF32 x) (h : 0 ≤ x ∧ x ≤ 1) :
    ∃ val, parseF32 R v field = .ok val := by
  obtain ⟨-, y, hy, hunit⟩ := read_scoreJson (R := R) hprint h
  rw [← hfield] at hy
  exact ⟨narrow y, (parseF32_ok_iff R).mpr ⟨⟨y, hy, rfl⟩, FloatText.unit_narrow hunit⟩⟩

/-- A candidate that is written is read with its action and its target. -/
theorem readCandidate_json (hprint : PrintsUnit printF32) {c : CandidateAction}
    (hconfidence : 0 ≤ c.confidence ∧ c.confidence ≤ 1)
    (hrecency : 0 ≤ c.recencyScore ∧ c.recencyScore ≤ 1) :
    ∃ x y, readCandidate R (c.json printF32) = some ⟨c.action, c.target, x, y⟩ := by
  obtain ⟨-, x, hx, -⟩ := read_scoreJson (R := R) hprint hconfidence
  obtain ⟨-, y, hy, -⟩ := read_scoreJson (R := R) hprint hrecency
  exact ⟨narrow (clamp01 x), narrow (clamp01 y),
    readCandidate_eq_some_iff.mpr ⟨rfl, rfl, ⟨x, hx, rfl⟩, y, hy, rfl⟩⟩

theorem read_candidates (hprint : PrintsUnit printF32) {cs : List CandidateAction}
    (hunit : ∀ c ∈ cs, (0 ≤ c.confidence ∧ c.confidence ≤ 1) ∧
      0 ≤ c.recencyScore ∧ c.recencyScore ≤ 1) :
    ((cs.map fun c => c.json printF32).filterMap (readCandidate R)).map
      (fun c => (c.action, c.target)) = cs.map fun c => (c.action, c.target) := by
  induction cs with
  | nil => rfl
  | cons c cs ih =>
      obtain ⟨hconfidence, hrecency⟩ := hunit c List.mem_cons_self
      obtain ⟨x, y, hread⟩ := readCandidate_json (R := R) hprint hconfidence hrecency
      rw [List.map_cons, List.filterMap_cons_some hread, List.map_cons, List.map_cons,
        ih fun d hd => hunit d (List.mem_cons_of_mem _ hd)]

/-- An intent that is written, and would be accepted, is read with its goal and with the actions
and the targets of its candidates. -/
theorem read_json (hprint : PrintsUnit printF32) (hscores : ∀ x ∈ s.scores, 0 ≤ x ∧ x ≤ 1)
    (hgoal : Text.trim s.goal ≠ "")
    (hasks : s.disambiguationRequired = true → s.disambiguationQuestion.isSome = true)
    (fresh : Uuid) (r : ParseRequest) :
    ∃ s', readAnswer R fresh (s.json printF32).print r = .ok s' ∧ s'.goal = s.goal ∧
      s'.candidateActions.map (fun c => (c.action, c.target)) =
        s.candidateActions.map fun c => (c.action, c.target) := by
  obtain ⟨hg, hc, ha, hr, hp, hcs, hreq, hq⟩ := index_json printF32 s
  have hhead : ∀ x ∈ [s.confidence, s.ambiguityScore, s.riskEstimate, s.halPreScore],
      0 ≤ x ∧ x ≤ 1 := fun x hx => hscores x (List.mem_append_left _ hx)
  obtain ⟨confidence, hconfidence⟩ := exists_parseF32 (R := R) hprint hc (hhead _ (by simp))
  obtain ⟨ambiguity, hambiguity⟩ := exists_parseF32 (R := R) hprint ha (hhead _ (by simp))
  obtain ⟨risk, hrisk⟩ := exists_parseF32 (R := R) hprint hr (hhead _ (by simp))
  obtain ⟨pre, hpre⟩ := exists_parseF32 (R := R) hprint hp (hhead _ (by simp))
  obtain ⟨hdepth, hnums⟩ := fits_json (R := R) hprint hscores
  have hfrom := R.fromStr_print (hdepth.trans (by decide)) hnums
  have hrequired : s.disambiguationRequired =
      ((s.json printF32).index "disambiguation_required").asBool?.getD false := by
    rw [hreq]
    rfl
  have hquestion : s.disambiguationQuestion =
      ((s.json printF32).index "disambiguation_question").asStr? := by
    rw [hq]
    cases s.disambiguationQuestion with
    | none => rfl
    | some q => rfl
  let v := s.json printF32
  let read := (s.candidateActions.map fun c => c.json printF32).filterMap (readCandidate R)
  refine ⟨buildIntent fresh v (some ⟨r.rawInput, r.session⟩) s.goal confidence ambiguity risk pre
    read, ?_, rfl, read_candidates hprint fun c hc => unit_candidate hscores hc⟩
  rw [readAnswer, parseLlmOutputWithContext, parseLlmOutputWithInjection, hfrom]
  refine (readIntent_ok_iff R).mpr ⟨?_, hgoal, hconfidence, hambiguity, hrisk, hpre, ⟨_, ?_, rfl⟩,
    rfl, rfl, ?_, rfl, rfl, rfl, rfl, rfl, rfl, rfl⟩
  · rw [hg]
    rfl
  · rw [hcs]
    rfl
  · show (v.index "disambiguation_required").asBool?.getD false = true →
      (v.index "disambiguation_question").asStr?.isSome = true
    rw [← hrequired, ← hquestion]
    exact hasks

end Read

/-! ## With the model down -/

theorem trim_classify (text : String) : Text.trim (classify text).1 ≠ "" := by
  have hrules : ∀ r ∈ actionRules, Text.trim r.2 ≠ "" := by decide
  rw [classify]
  cases hrule : decidingRule text with
  | none => exact (by decide : Text.trim "intent.general" ≠ "")
  | some r => exact hrules r (List.mem_of_find?_eq_some hrule)

theorem unit_baseRisk (action : String) : 0 ≤ baseRisk action ∧ baseRisk action ≤ 1 := by
  unfold baseRisk
  split_ifs
  · decide
  · decide
  · decide
  · decide

/-- Where a target is extracted, there is an intent that will be accepted. -/
theorem buildIntent_of_target {words target : String} (fresh : Uuid) (session : SessionContext)
    (h : extractTargetForAction (classify words).1 words = some target) :
    ∃ s, KeywordBackend.buildIntent fresh words session = some s ∧
      s.goal = (classify words).1 ∧
      s.candidateActions.map (fun c => (c.action, c.target)) = [((classify words).1, target)] ∧
      (∀ x ∈ s.scores, 0 ≤ x ∧ x ≤ 1) ∧
      (s.disambiguationRequired = true → s.disambiguationQuestion.isSome = true) := by
  unfold KeywordBackend.buildIntent
  simp only [h]
  refine ⟨_, rfl, rfl, rfl, ?_, ?_⟩
  · have hrisk := unit_baseRisk (classify words).1
    have hzero : (0 : Float32) ≤ 0 ∧ (0 : Float32) ≤ 1 := by decide
    have hconfidence : ∀ certain : Bool,
        0 ≤ (if certain then KeywordBackend.certainConfidence
            else KeywordBackend.uncertainConfidence) ∧
          (if certain then KeywordBackend.certainConfidence
            else KeywordBackend.uncertainConfidence) ≤ 1 := by decide
    have hambiguity : ∀ certain : Bool, (0 : Float32) ≤ (if certain then 0.3 else 0.8) ∧
        (if certain then 0.3 else 0.8) ≤ (1 : Float32) := by decide
    simp only [IntentSchema.scores, List.flatMap_cons, List.flatMap_nil, List.append_nil,
      List.forall_mem_append, List.forall_mem_cons, List.not_mem_nil, false_imp_iff, implies_true,
      and_true]
    exact ⟨⟨hconfidence _, hambiguity _, hrisk, hrisk⟩, hconfidence _, hzero⟩
  · cases (classify words).2 with
    | true => exact nofun
    | false => exact fun _ => rfl

section Down

variable (R : Reader) (hash : KeyHash) {printF32 : Float32 → NumLit} {fresh : Uuid}
  {primary : String → SessionContext → Except String String} {e : String}

/-- The fallback does not panic on what the parser asks it. -/
theorem exists_answer (printF32 : Float32 → NumLit) (fresh : Uuid)
    (primary : String → SessionContext → Except String String) (raw : String)
    (session : SessionContext) :
    ∃ answer, FallbackBackend.infer primary (KeywordBackend.infer printF32 fresh) (normalize raw)
      session = some answer := by
  rw [FallbackBackend.infer]
  cases primary (normalize raw) session with
  | ok output => exact ⟨_, rfl⟩
  | error e =>
      have htarget : extractTargetForAction (classify (normalize raw)).1 (normalize raw) = _ :=
        extractTarget_normalize _
      obtain ⟨s, hs, -⟩ := buildIntent_of_target fresh session htarget
      by_cases hblank : Text.trim (normalize raw) = ""
      · simp only [KeywordBackend.infer, if_pos hblank]
        exact ⟨_, rfl⟩
      · simp only [KeywordBackend.infer, if_neg hblank, hs]
        exact ⟨_, rfl⟩

/-- With the model down and nothing cached, words are answered with one candidate: the action they
are classified as, and the target extracted from them. -/
theorem parse_fallback (hprint : PrintsUnit printF32) (cache : IntentKvCache) (r : ParseRequest)
    (hanswer : FallbackBackend.infer primary (KeywordBackend.infer printF32 fresh)
      (normalize r.rawInput) r.session = some r.answer)
    (hdown : primary (normalize r.rawInput) r.session = .error e)
    (hblank : normalize r.rawInput ≠ "") (hmiss : (cache.get r.now (r.key hash)).1 = none) :
    ∃ schema c, (parse R hash cache r).1 = .ok ⟨schema, false⟩ ∧ schema.candidateActions = [c] ∧
      c.action = (classify (normalize r.rawInput)).1 ∧
      c.target = normalizedTarget c.action (normalize r.rawInput) := by
  have htarget : extractTargetForAction (classify (normalize r.rawInput)).1
      (normalize r.rawInput) = _ := extractTarget_normalize _
  obtain ⟨s, hs, hgoal, hcandidates, hscores, hasks⟩ :=
    buildIntent_of_target fresh r.session htarget
  have hok : r.answer = .ok (s.json printF32).print := by
    simp only [FallbackBackend.infer, hdown, KeywordBackend.infer, if_neg (trim_normalize hblank),
      hs] at hanswer
    exact (Option.some.inj hanswer).symm
  obtain ⟨schema, hread, -, hsame⟩ := read_json (R := R) hprint hscores
    (hgoal ▸ trim_classify _) hasks r.fresh r
  rw [hcandidates] at hsame
  obtain ⟨c, cs, hcons, hc, hrest⟩ := List.map_eq_cons_iff.mp hsame
  obtain rfl := List.map_eq_nil_iff.mp hrest
  obtain ⟨haction, htarget⟩ := Prod.mk.inj hc
  refine ⟨schema, c, ?_, hcons, haction, by rw [htarget, haction]⟩
  rw [parse, if_neg hblank]
  cases hget : cache.get r.now (r.key hash) with
  | mk found behind =>
      rw [hget] at hmiss
      obtain rfl : found = none := hmiss
      simp only [hok, hread]

/-! ## Paths -/

/-- The actions on files. -/
def fileActions : List String :=
  ["file.open", "file.search", "file.move", "file.delete", "create_dir"]

/-- A run of characters without white space, as long as can be, that starts with a slash. -/
def IsAbsolutePath (input p : String) : Prop :=
  p ∈ splitWhitespace input ∧ Text.startsWith p "/" = true

instance (input p : String) : Decidable (IsAbsolutePath input p) :=
  inferInstanceAs (Decidable (_ ∧ _))

/-- Normalized words hold no path. -/
theorem not_contains_path {raw input p : String} (h : IsAbsolutePath input p) :
    ¬ Text.contains (normalize raw) p = true := by
  intro hcontains
  obtain ⟨pre, post, happend⟩ := Text.contains_iff.mp hcontains
  obtain ⟨tail, htail⟩ := Text.startsWith_iff.mp h.2
  have hslash : "/".toList = ['/'] := by simp
  have hmem : '/' ∈ (normalize raw).toList := by
    rw [← happend, ← htail, hslash]
    simp
  cases not_punctuation_normalize hmem

/-- With the model down and nothing cached, the target names a path of the words exactly where the
action is not one on files, or makes a directory and the path is part of the one that is put in its
place. -/
theorem path_kept_iff (hprint : PrintsUnit printF32) (cache : IntentKvCache) (r : ParseRequest)
    (hanswer : FallbackBackend.infer primary (KeywordBackend.infer printF32 fresh)
      (normalize r.rawInput) r.session = some r.answer)
    (hdown : primary (normalize r.rawInput) r.session = .error e)
    (hmiss : (cache.get r.now (r.key hash)).1 = none) :
    ∃ schema, (parse R hash cache r).1 = .ok ⟨schema, false⟩ ∧
      ∀ p, IsAbsolutePath r.rawInput p →
        ((∀ c ∈ schema.candidateActions, c.action ∈ fileActions →
            Text.contains c.target p = true) ↔
          ((classify (normalize r.rawInput)).1 ∈ fileActions →
            (classify (normalize r.rawInput)).1 = "create_dir" ∧
              Text.contains (if Text.contains (Text.toLowercase (normalize r.rawInput)) "test"
                then "/tmp/test" else "/tmp/cognos-test") p = true)) := by
  by_cases hblank : normalize r.rawInput = ""
  · -- nothing is classified, and there is no candidate
    refine ⟨awaitInputForEmpty r.fresh r.rawInput r.session, ?_, ?_⟩
    · rw [parse, if_pos hblank]
    · intro p _
      have hgeneral : (classify "").1 ∉ fileActions := by decide
      rw [hblank]
      refine iff_of_true ?_ fun hfile => absurd hfile hgeneral
      intro c hc
      cases hc
  · obtain ⟨schema, c, hparse, hcons, haction, htarget⟩ :=
      parse_fallback R hash hprint cache r hanswer hdown hblank hmiss
    refine ⟨schema, hparse, ?_⟩
    intro p hp
    rw [hcons, List.forall_mem_singleton, htarget, haction]
    refine imp_congr_right fun _ => ?_
    rw [normalizedTarget]
    by_cases hcreate : (classify (normalize r.rawInput)).1 = "create_dir"
    · rw [if_pos hcreate]
      exact (and_iff_right hcreate).symm
    · rw [if_neg hcreate]
      exact iff_of_false (not_contains_path hp) fun h => hcreate h.1

end Down

/-- The texts of the numbers that the keyword backend writes. -/
def scoreTexts : List (Float32 × String) :=
  [(0.4, "0.4"), (0.25, "0.25"), (0.3, "0.3"), (0.8, "0.8"), (0.6, "0.6"), (0.15, "0.15")]

/-- Real on these. -/
def shortest (x : Float32) : NumLit :=
  let text := ((scoreTexts.find? fun r => r.1 == x).map Prod.snd).getD "0.0"
  (NumLit.ofChars? text.toList).getD ⟨"0.0", by decide⟩

theorem printsUnit_shortest : PrintsUnit shortest := by
  intro x _
  have hall : ∀ text ∈ "0.0" :: scoreTexts.map Prod.snd,
      0 ≤ ((NumLit.ofChars? text.toList).getD ⟨"0.0", by decide⟩).value ∧
        ((NumLit.ofChars? text.toList).getD ⟨"0.0", by decide⟩).value ≤ 1 := by decide +kernel
  refine hall _ ?_
  cases hfind : scoreTexts.find? fun r => r.1 == x with
  | none => exact List.mem_cons_self
  | some r =>
      exact List.mem_cons_of_mem _ (List.mem_map_of_mem (List.mem_of_find?_eq_some hfind))

/-- What is asked, of a model that is down. -/
def askDown (raw : String) (answer : Except String String) : ParseRequest :=
  { askOpen "12:00" 0 with rawInput := raw, infer := fun _ _ => answer }

def down : String → SessionContext → Except String String := fun _ _ => .error "down"

/-- The path for a new directory is the start of the one that is put in its place. -/
theorem path_kept_iff_create : ∃ answer schema,
    (parse Reader.sample (fun _ _ _ _ => 0) .new (askDown "create folder /tmp" answer)).1 =
      .ok ⟨schema, false⟩ ∧
      ∀ c ∈ schema.candidateActions, c.action ∈ fileActions →
        Text.contains c.target "/tmp" = true := by
  obtain ⟨answer, hanswer⟩ := exists_answer shortest .nil down "create folder /tmp" session
  have hwords : normalize "create folder /tmp" = "create folder tmp" := by decide
  have hclass : classify "create folder tmp" = ("create_dir", true) := by decide
  have hpath : IsAbsolutePath "create folder /tmp" "/tmp" := by decide
  obtain ⟨schema, hparse, hkept⟩ := path_kept_iff Reader.sample (fun _ _ _ _ => 0)
    printsUnit_shortest .new (askDown "create folder /tmp" answer) hanswer rfl rfl
  refine ⟨answer, schema, hparse, (hkept "/tmp" hpath).mpr fun _ => ?_⟩
  show (classify (normalize "create folder /tmp")).1 = _ ∧
    Text.contains (if Text.contains (Text.toLowercase (normalize "create folder /tmp")) "test"
      then "/tmp/test" else "/tmp/cognos-test") "/tmp" = true
  rw [hwords, hclass]
  exact ⟨rfl, by decide⟩

/-- A file is to be opened by its path, of which only the words are left. -/
theorem not_path_kept_open : ¬ ∀ (R : Reader) (hash : KeyHash) (printF32 : Float32 → NumLit)
    (fresh : Uuid) (primary : String → SessionContext → Except String String) (e : String)
    (cache : IntentKvCache) (r : ParseRequest) (schema : IntentSchema) (cached : Bool),
    PrintsUnit printF32 →
    FallbackBackend.infer primary (KeywordBackend.infer printF32 fresh) (normalize r.rawInput)
      r.session = some r.answer →
    primary (normalize r.rawInput) r.session = .error e →
    (parse R hash cache r).1 = .ok ⟨schema, cached⟩ →
    ∀ c ∈ schema.candidateActions, c.action ∈ fileActions →
      ∀ p, IsAbsolutePath r.rawInput p → Text.contains c.target p = true := by
  intro h
  obtain ⟨answer, hanswer⟩ := exists_answer shortest .nil down "open /home/u/a.txt" session
  have hwords : normalize "open /home/u/a.txt" = "open home u a txt" := by decide
  have hclass : classify "open home u a txt" = ("file.open", true) := by decide
  have hpath : IsAbsolutePath "open /home/u/a.txt" "/home/u/a.txt" := by decide
  have hblank : normalize "open /home/u/a.txt" ≠ "" := hwords ▸ by decide
  obtain ⟨schema, c, hparse, hcons, haction, htarget⟩ := parse_fallback Reader.sample
    (fun _ _ _ _ => 0) printsUnit_shortest .new (askDown "open /home/u/a.txt" answer) hanswer rfl
    hblank rfl
  have hopen : c.action = "file.open" := by
    rw [haction]
    show (classify (normalize "open /home/u/a.txt")).1 = _
    rw [hwords, hclass]
  have hmem : c ∈ schema.candidateActions := hcons ▸ List.mem_cons_self
  have hfile : c.action ∈ fileActions := by
    rw [hopen]
    decide
  have hkept := h Reader.sample (fun _ _ _ _ => 0) shortest .nil down "down" .new
    (askDown "open /home/u/a.txt" answer) schema false printsUnit_shortest hanswer rfl hparse c
    hmem hfile "/home/u/a.txt" hpath
  rw [htarget, hopen, normalizedTarget, if_neg (by decide)] at hkept
  exact not_contains_path hpath hkept

end IntentEngine

/-
# `Cognos.IntentEngine.LlmOutputSchema` — the schema a model's output is constrained to

`schema/intent-llm-output.schema.json`, against the validator that reads the output.  The
schema asks something of each member by itself, the validator one thing of two of them: a
question must be there where clarification is required.

    schema_sound_iff   a valid document is accepted with its own values exactly when it
                       does not require clarification without a question
-/
import Mathlib
import Cognos.Lib.JsonSchema
import Cognos.IntentEngine.AcceptedIntents

namespace IntentEngine

open Json (Value Reader)
open JsonSchema
open FloatText (narrow unit_narrow)

/-! ## The schema -/

def goalEnum : List String :=
  ["await_input", "code_task", "create_dir", "delete_path", "install_package", "network_download",
    "network_send", "open_file", "open_workspace", "out_of_scope", "package_and_convert",
    "pkg.install", "search_files"]

def domainEnum : List (Option String) :=
  [some "system", some "robotics", some "robotique", some "finance", some "media", some "coding",
    some "work", some "downloads", none]

def actionEnum : List String :=
  ["create_dir", "create_file", "open_file", "open_files", "install_package", "convert_media",
    "refactor_code", "run_tests", "search_files", "download_file", "send_email", "delete_path",
    "delete_files"]

def unitSchema : Schema := [.type [.number], .minimum 0, .maximum 1]

def contextKeySchema : Schema := [.type [.string], .pattern [('a', 'z'), ('_', '_')] 1 24]

def targetSchema : Schema :=
  [.type [.string], .pattern [('~', '~'), ('.', '.'), ('/', '/'), ('a', 'z'), ('A', 'Z'),
    ('0', '9'), ('_', '_'), (':', ':'), ('/', '/'), ('=', '='), ('?', '?'), ('&', '&'),
    ('-', '-')] 1 80]

def candidateProperties : List (String × Schema) :=
  [("action", [.type [.string], .enum (actionEnum.map some)]),
    ("target", targetSchema),
    ("confidence", unitSchema),
    ("recency_score", unitSchema)]

/-- `$defs.candidate_action`. -/
def candidateActionSchema : Schema :=
  [.type [.object], .required ["action", "target", "confidence", "recency_score"],
    .properties candidateProperties false]

def llmOutputProperties : List (String × Schema) :=
  [("goal", [.type [.string], .enum (goalEnum.map some)]),
    ("domain", [.type [.string, .null], .enum domainEnum]),
    ("confidence", unitSchema),
    ("ambiguity_score", unitSchema),
    ("risk_estimate", unitSchema),
    ("required_context", [.type [.array], .items contextKeySchema]),
    ("candidate_actions", [.type [.array], .items candidateActionSchema]),
    ("disambiguation_required", [.type [.boolean]]),
    ("disambiguation_question", [.type [.string, .null]]),
    ("hal_pre_score", unitSchema),
    ("escalate_to_cloud", [.type [.boolean]])]

def llmOutputRequired : List String :=
  ["goal", "domain", "confidence", "ambiguity_score", "risk_estimate", "required_context",
    "candidate_actions", "disambiguation_required", "disambiguation_question", "hal_pre_score",
    "escalate_to_cloud"]

/-- `IntentLlmOutput`. -/
def llmOutputSchema : Schema :=
  [.type [.object], .required llmOutputRequired, .properties llmOutputProperties false]

/-! ## What a valid value looks like -/

section Shapes

variable {v : Value}

theorem number_of_unit (h : valid unitSchema v = true) :
    ∃ n, v = .num n ∧ 0 ≤ n.value ∧ n.value ≤ 1 := by
  have hall := valid_iff.mp h
  obtain ⟨n, rfl⟩ := exists_of_number (hall _ List.mem_cons_self)
  have hlow := hall (.minimum 0) (by simp [unitSchema])
  have hhigh := hall (.maximum 1) (by simp [unitSchema])
  exact ⟨n, rfl, of_decide_eq_true hlow, of_decide_eq_true hhigh⟩

/-- A member of an object that is valid under a schema that requires it. -/
theorem valid_member {names : List String} {ps : List (String × Schema)}
    (h : valid [.type [.object], .required names, .properties ps false] v = true) (key : String)
    {s : Schema} (hkey : key ∈ names) (hs : ps.lookup key = some s) :
    valid s (v.index key) = true := by
  have hall := valid_iff.mp h
  obtain ⟨fs, rfl⟩ := exists_of_object (hall _ List.mem_cons_self)
  exact valid_index (hall (.required names) (by simp)) (hall (.properties ps false) (by simp))
    hkey hs

theorem string_of_valid {s : Schema} (h : valid (.type [.string] :: s) v = true) :
    ∃ t, v = .str t := exists_of_string (valid_iff.mp h _ List.mem_cons_self)

/-- The elements of an array whose items are valid. -/
theorem array_of_valid {s : Schema} (h : valid [.type [.array], .items s] v = true) :
    ∃ vs, v = .arr vs ∧ ∀ x ∈ vs, valid s x = true := by
  have hall := valid_iff.mp h
  obtain ⟨vs, rfl⟩ := exists_of_array (hall _ List.mem_cons_self)
  exact ⟨vs, rfl, List.all_eq_true.mp (hall (.items s) (by simp))⟩

/-- An array of strings, as what the strings of it are. -/
theorem strings_of_valid {s : Schema} (h : valid [.type [.array], .items (.type [.string] :: s)] v =
    true) : v = .arr (v.strings.map .str) := by
  obtain ⟨vs, rfl, hall⟩ := array_of_valid h
  have hmap : ∀ us : List Value, (∀ x ∈ us, valid (.type [.string] :: s) x = true) →
      us = (us.filterMap Value.asStr?).map .str := by
    intro us hus
    induction us with
    | nil => rfl
    | cons x us ih =>
        obtain ⟨t, rfl⟩ := string_of_valid (hus x List.mem_cons_self)
        exact congrArg (Value.str t :: ·) (ih fun y hy => hus y (List.mem_cons_of_mem _ hy))
  exact congrArg Value.arr (hmap vs hall)

end Shapes

/-! ## Depth and numbers -/

section Reading

variable {R : Reader}

/-- Nested no deeper than `n`, with numbers in the range of their type. -/
def Fits (R : Reader) (n : Nat) (v : Value) : Prop :=
  v.depth ≤ n ∧ v.numsAll R.inRange = true

theorem fits_arr {n : Nat} {vs : List Value} (h : ∀ v ∈ vs, Fits R n v) :
    Fits R (n + 1) (.arr vs) := by
  have hparts : Json.elemDepth vs ≤ n ∧ Json.elemNumsAll R.inRange vs = true := by
    induction vs with
    | nil => exact ⟨Nat.zero_le _, rfl⟩
    | cons v vs ih =>
        obtain ⟨hdepth, hnums⟩ := h v List.mem_cons_self
        obtain ⟨hdepth', hnums'⟩ := ih fun w hw => h w (List.mem_cons_of_mem _ hw)
        exact ⟨Nat.max_le.mpr ⟨hdepth, hdepth'⟩, Bool.and_eq_true_iff.mpr ⟨hnums, hnums'⟩⟩
  exact ⟨Nat.succ_le_succ hparts.1, hparts.2⟩

theorem fits_obj {n : Nat} {fs : List (String × Value)} (h : ∀ f ∈ fs, Fits R n f.2) :
    Fits R (n + 1) (.obj fs) := by
  have hparts : Json.fieldDepth fs ≤ n ∧ Json.fieldNumsAll R.inRange fs = true := by
    induction fs with
    | nil => exact ⟨Nat.zero_le _, rfl⟩
    | cons f fs ih =>
        obtain ⟨hdepth, hnums⟩ := h f List.mem_cons_self
        obtain ⟨hdepth', hnums'⟩ := ih fun g hg => h g (List.mem_cons_of_mem _ hg)
        exact ⟨Nat.max_le.mpr ⟨hdepth, hdepth'⟩, Bool.and_eq_true_iff.mpr ⟨hnums, hnums'⟩⟩
  exact ⟨Nat.succ_le_succ hparts.1, hparts.2⟩

/-- An object with no members but those of `ps`, each of which fits where it is valid. -/
theorem fits_of_valid {n : Nat} {names : List String} {ps : List (String × Schema)} {v : Value}
    (h : valid [.type [.object], .required names, .properties ps false] v = true)
    (hps : ∀ p ∈ ps, ∀ x, valid p.2 x = true → Fits R n x) : Fits R (n + 1) v := by
  have hall := valid_iff.mp h
  obtain ⟨fs, rfl⟩ := exists_of_object (hall _ List.mem_cons_self)
  refine fits_obj fun f hf => ?_
  have hfields := hall (.properties ps false) (by simp)
  obtain ⟨s, hs, hvalid⟩ := exists_lookup_of_propertyHolds (List.all_eq_true.mp hfields f hf)
  exact hps _ hs _ hvalid

theorem fits_unit {n : Nat} {v : Value} (h : valid unitSchema v = true) : Fits R n v := by
  obtain ⟨m, rfl, hlow, hhigh⟩ := number_of_unit h
  obtain ⟨x, hx, -⟩ := R.unit_asF64 m hlow hhigh
  refine ⟨Nat.zero_le _, ?_⟩
  show (R.asF64 m).isSome = true
  rw [hx]
  rfl

theorem fits_string {n : Nat} {s : Schema} {v : Value}
    (h : valid (.type [.string] :: s) v = true) : Fits R n v := by
  obtain ⟨t, rfl⟩ := string_of_valid h
  exact ⟨Nat.zero_le _, rfl⟩

theorem fits_optional {n : Nat} {s : Schema} {v : Value}
    (h : valid (.type [.string, .null] :: s) v = true) : Fits R n v := by
  rcases exists_of_optional (valid_iff.mp h _ List.mem_cons_self) with ⟨t, rfl⟩ | rfl
  · exact ⟨Nat.zero_le _, rfl⟩
  · exact ⟨Nat.zero_le _, rfl⟩

theorem fits_boolean {n : Nat} {s : Schema} {v : Value}
    (h : valid (.type [.boolean] :: s) v = true) : Fits R n v := by
  obtain ⟨b, rfl⟩ := exists_of_boolean (valid_iff.mp h _ List.mem_cons_self)
  exact ⟨Nat.zero_le _, rfl⟩

theorem fits_candidate {v : Value} (h : valid candidateActionSchema v = true) : Fits R 1 v := by
  refine fits_of_valid h ?_
  simp only [candidateProperties, List.forall_mem_cons, List.not_mem_nil, false_implies,
    implies_true, and_true]
  exact ⟨fun _ => fits_string, fun _ => fits_string, fun _ => fits_unit, fun _ => fits_unit⟩

theorem fits_llmOutput {v : Value} (h : valid llmOutputSchema v = true) : Fits R 3 v := by
  refine fits_of_valid h ?_
  simp only [llmOutputProperties, List.forall_mem_cons, List.not_mem_nil, false_implies,
    implies_true, and_true]
  refine ⟨fun _ => fits_string, fun _ => fits_optional, fun _ => fits_unit, fun _ => fits_unit,
    fun _ => fits_unit, ?_, ?_, fun _ => fits_boolean, fun _ => fits_optional, fun _ => fits_unit,
    fun _ => fits_boolean⟩
  · intro x hx
    obtain ⟨vs, rfl, hall⟩ := array_of_valid hx
    exact fits_arr fun w hw => fits_string (hall w hw)
  · intro x hx
    obtain ⟨vs, rfl, hall⟩ := array_of_valid hx
    exact fits_arr fun w hw => fits_candidate (hall w hw)

/-- A valid document is read as a value. -/
theorem fromStr_of_valid {raw : String} {v : Value} (hraw : Json.parseText raw = some v)
    (h : valid llmOutputSchema v = true) : R.fromStr raw = some v := by
  obtain ⟨hdepth, hnums⟩ := fits_llmOutput (R := R) h
  rw [Reader.fromStr, hraw, Option.bind_some, Value.admitted, if_pos ⟨by omega, hnums⟩]

/-! ## Accepted, with its own values -/

/-- A string, or nothing. -/
def optional : Option String → Value
  | none => .null
  | some t => .str t

/-- The intent carries the members of the value. -/
structure Carries (R : Reader) (v : Value) (s : IntentSchema) : Prop where
  goal : v.index "goal" = .str s.goal
  domain : v.index "domain" = optional s.domain
  confidence : SameScore R (v.index "confidence") s.confidence
  ambiguityScore : SameScore R (v.index "ambiguity_score") s.ambiguityScore
  riskEstimate : SameScore R (v.index "risk_estimate") s.riskEstimate
  requiredContext : v.index "required_context" = .arr (s.requiredContext.map .str)
  candidateActions : Faithful R v s
  disambiguationRequired : v.index "disambiguation_required" = .bool s.disambiguationRequired
  disambiguationQuestion : v.index "disambiguation_question" = optional s.disambiguationQuestion
  halPreScore : SameScore R (v.index "hal_pre_score") s.halPreScore
  escalateToCloud : v.index "escalate_to_cloud" = .bool s.escalateToCloud

theorem unitNumber_of_valid {v : Value} (h : valid unitSchema v = true) : UnitNumber R v := by
  obtain ⟨n, rfl, hlow, hhigh⟩ := number_of_unit h
  exact R.unit_asF64 n hlow hhigh

theorem wellFormed_of_valid {ca : Value} (h : valid candidateActionSchema ca = true) :
    WellFormed R ca where
  action := string_of_valid (valid_member h "action" (by decide) rfl)
  target := string_of_valid (valid_member h "target" (by decide) rfl)
  confidence := unitNumber_of_valid (valid_member h "confidence" (by decide) rfl)
  recencyScore := unitNumber_of_valid (valid_member h "recency_score" (by decide) rfl)

theorem sameScore_of_valid {v : Value} {field : String} {y : Float32}
    (h : valid unitSchema (v.index field) = true) (hy : parseF32 R v field = .ok y) :
    SameScore R (v.index field) y := by
  obtain ⟨x, hx, hunit⟩ := unitNumber_of_valid (R := R) h
  obtain ⟨⟨x', hx', hnarrow⟩, -⟩ := (parseF32_ok_iff R).mp hy
  obtain rfl := Option.some.inj (hx.symm.trans hx')
  exact ⟨x, hx, hunit, hnarrow⟩

theorem eq_optional_of_valid {s : Schema} {v : Value}
    (h : valid (.type [.string, .null] :: s) v = true) : v = optional v.asStr? := by
  rcases exists_of_optional (valid_iff.mp h _ List.mem_cons_self) with ⟨t, rfl⟩ | rfl
  · rfl
  · rfl

theorem eq_bool_of_valid {s : Schema} {v : Value} (h : valid (.type [.boolean] :: s) v = true)
    (d : Bool) : v = .bool (v.asBool?.getD d) := by
  obtain ⟨b, rfl⟩ := exists_of_boolean (valid_iff.mp h _ List.mem_cons_self)
  rfl

/-- No goal of the schema is blank. -/
theorem trim_goal {goal : String} (h : valid [.type [.string], .enum (goalEnum.map some)]
    (.str goal) = true) : Text.trim goal ≠ "" := by
  have henum := valid_iff.mp h (.enum (goalEnum.map some)) (by simp)
  have hmem : some goal ∈ goalEnum.map some := List.contains_iff_mem.mp henum
  obtain ⟨g, hg, hsome⟩ := List.mem_map.mp hmem
  obtain rfl := Option.some.inj hsome
  have hall : ∀ g ∈ goalEnum, Text.trim g ≠ "" := by decide
  exact hall g hg

section Valid

variable {v : Value}

theorem carries_of_valid {fresh : Uuid} {injected : Option InjectedIntentFields} {s : IntentSchema}
    (h : valid llmOutputSchema v = true) (hs : Accepted R fresh v injected s) : Carries R v s := by
  have hrequired := eq_bool_of_valid
    (valid_member h "disambiguation_required" (by decide) rfl) false
  have hescalate := eq_bool_of_valid
    (valid_member h "escalate_to_cloud" (by decide) rfl) false
  refine ⟨asStr?_iff.mp hs.goal, ?_, ?_, ?_, ?_, ?_, ?_, ?_, ?_, ?_, ?_⟩
  · rw [hs.domain]
    exact eq_optional_of_valid (valid_member h _ (by decide) rfl)
  · exact sameScore_of_valid (valid_member h _ (by decide) rfl) hs.confidence
  · exact sameScore_of_valid (valid_member h _ (by decide) rfl) hs.ambiguityScore
  · exact sameScore_of_valid (valid_member h _ (by decide) rfl) hs.riskEstimate
  · rw [hs.requiredContext]
    exact strings_of_valid (valid_member h _ (by decide) rfl)
  · obtain ⟨cas, hcas, hcandidates⟩ := hs.candidateActions
    obtain ⟨vs, hvs, hall⟩ := array_of_valid
      (valid_member h "candidate_actions" (by decide) rfl)
    rw [asArray?_iff, hvs] at hcas
    obtain rfl := Value.arr.inj hcas
    refine ⟨vs, hvs, ?_⟩
    rw [hcandidates]
    exact forall₂_of_wellFormed fun ca hca => wellFormed_of_valid (hall ca hca)
  · rw [hs.disambiguationRequired]
    exact hrequired
  · rw [hs.disambiguationQuestion]
    exact eq_optional_of_valid (valid_member h _ (by decide) rfl)
  · exact sameScore_of_valid (valid_member h _ (by decide) rfl) hs.halPreScore
  · rw [hs.escalateToCloud, hescalate]
    rfl

/-- What a valid value may still lack. -/
theorem readable_iff_of_valid (h : valid llmOutputSchema v = true) :
    Readable R v ↔ ¬ (v.index "disambiguation_required" = .bool true ∧
      v.index "disambiguation_question" = .null) := by
  constructor
  · rintro hread ⟨hrequired, hquestion⟩
    obtain ⟨q, hq⟩ := hread.question hrequired
    rw [hquestion] at hq
    cases hq
  · intro hasks
    obtain ⟨goal, hgoal⟩ := string_of_valid (valid_member h "goal" (by decide) rfl)
    refine ⟨⟨goal, hgoal, ?_⟩, ?_, ?_, ?_⟩
    · refine trim_goal ?_
      rw [← hgoal]
      exact valid_member h _ (by decide) rfl
    · intro field hfield
      have hunit : valid unitSchema (v.index field) = true := by
        simp only [List.mem_cons, List.not_mem_nil, or_false] at hfield
        rcases hfield with rfl | rfl | rfl | rfl
        all_goals exact valid_member h _ (by decide) rfl
      obtain ⟨x, hx, hx01⟩ := unitNumber_of_valid (R := R) hunit
      exact ⟨x, hx, unit_narrow hx01⟩
    · obtain ⟨cas, hcas, -⟩ := array_of_valid
        (valid_member h "candidate_actions" (by decide) rfl)
      exact ⟨cas, hcas⟩
    · intro hrequired
      have hquestion := valid_iff.mp
        (valid_member h "disambiguation_question" (by decide) rfl) _ List.mem_cons_self
      rcases exists_of_optional hquestion with hq | hnull
      · exact hq
      · exact absurd ⟨hrequired, hnull⟩ hasks

end Valid

/-- A text is accepted exactly when its value passes the checks. -/
theorem exists_parsed_iff {fresh : Uuid} {raw userInput : String} {session : SessionContext}
    {v : Value} (hv : R.fromStr raw = some v) :
    (∃ s, parseLlmOutputWithContext R fresh raw userInput session = .ok s) ↔ Readable R v := by
  rw [← exists_check_iff, parseLlmOutputWithContext, parseLlmOutputWithInjection, hv]
  show (∃ s, readIntent R fresh v _ = .ok s) ↔ _
  rw [readIntent_eq]
  cases check R v with
  | error e =>
      constructor
      · rintro ⟨s, hs⟩
        cases hs
      · rintro ⟨c, hc⟩
        cases hc
  | ok c => exact ⟨fun _ => ⟨c, rfl⟩, fun _ => ⟨_, rfl⟩⟩

/-- A valid document that passes the checks is accepted with its own values. -/
theorem exists_carried {fresh : Uuid} {raw userInput : String} {session : SessionContext}
    {v : Value} (hraw : Json.parseText raw = some v) (h : valid llmOutputSchema v = true)
    (hread : Readable R v) :
    ∃ s, parseLlmOutputWithContext R fresh raw userInput session = .ok s ∧ Carries R v s := by
  have hv := fromStr_of_valid (R := R) hraw h
  obtain ⟨s, hs⟩ := (exists_parsed_iff hv).mpr hread
  exact ⟨s, hs, carries_of_valid h (accepted_of_parsed hv hs)⟩

/-- A valid document is accepted with its own values exactly when it does not require
clarification without a question. -/
theorem schema_sound_iff {fresh : Uuid} {raw userInput : String} {session : SessionContext}
    {v : Value} (hraw : Json.parseText raw = some v) (h : valid llmOutputSchema v = true) :
    (∃ s, parseLlmOutputWithContext R fresh raw userInput session = .ok s ∧ Carries R v s) ↔
      ¬ (v.index "disambiguation_required" = .bool true ∧
        v.index "disambiguation_question" = .null) := by
  rw [← readable_iff_of_valid (R := R) h]
  constructor
  · rintro ⟨s, hs, -⟩
    exact (exists_parsed_iff (fromStr_of_valid hraw h)).mp ⟨s, hs⟩
  · intro hread
    exact exists_carried hraw h hread

end Reading

/-- A directory, and whether to ask about it. -/
def document (required : Bool) (question : Value) : Value :=
  .obj [("goal", .str "create_dir"), ("domain", .null), ("confidence", tenths 9),
    ("ambiguity_score", tenths 9), ("risk_estimate", tenths 1),
    ("required_context", .arr []), ("candidate_actions", .arr []),
    ("disambiguation_required", .bool required), ("disambiguation_question", question),
    ("hal_pre_score", tenths 1), ("escalate_to_cloud", .bool false)]

theorem schema_sound_iff_clear : ∃ s,
    parseLlmOutputWithContext Reader.sample .nil (document false .null).print "mkdir" session =
      .ok s ∧ Carries Reader.sample (document false .null) s := by
  have hvalid : valid llmOutputSchema (document false .null) = true := by decide +kernel
  refine (schema_sound_iff (Json.parseText_print _) hvalid).mpr ?_
  rintro ⟨hrequired, -⟩
  cases hrequired

/-- Valid, and refused: nothing is asked. -/
theorem not_sound_unasked : valid llmOutputSchema (document true .null) = true ∧
    Json.parseText (document true .null).print = some (document true .null) ∧
    ¬ ∃ s, parseLlmOutputWithContext Reader.sample .nil (document true .null).print "mkdir"
      session = .ok s := by
  have hvalid : valid llmOutputSchema (document true .null) = true := by decide +kernel
  have hraw := Json.parseText_print (document true .null)
  refine ⟨hvalid, hraw, ?_⟩
  rw [exists_parsed_iff (fromStr_of_valid hraw hvalid), readable_iff_of_valid hvalid]
  intro h
  exact h ⟨rfl, rfl⟩

end IntentEngine

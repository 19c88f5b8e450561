/-
# `Cognos.IntentEngine.Grammar` — the grammar a model's output is generated under

`grammar/intent.gbnf`, rule by rule.  Whatever it derives spells a value that is valid under
the schema and asks a question where clarification is required; so the validator accepts it
with its own values.

    grammar_sound   every text of the grammar is accepted
-/
import Mathlib
import Cognos.Lib.GbnfJson
import Cognos.IntentEngine.LlmOutputSchema

namespace IntentEngine

open Json (Value Reader)
open JsonSchema
open Gbnf

/-! ## The rules -/

/-- `root-clear` and `root-disamb` differ in three members. -/
def intentObject (candidates required question : Rhs) : Rhs :=
  object [("goal", .rule "goal-string"), ("domain", .rule "domain-value"),
    ("confidence", .rule "unit"), ("ambiguity_score", .rule "unit"),
    ("risk_estimate", .rule "unit"), ("required_context", .rule "string-array"),
    ("candidate_actions", candidates), ("disambiguation_required", required),
    ("disambiguation_question", question), ("hal_pre_score", .rule "unit"),
    ("escalate_to_cloud", .rule "boolean")]

def goalStrings : List String :=
  ["await_input", "code_task", "create_dir", "delete_path", "install_package", "network_download",
    "network_send", "open_file", "open_workspace", "out_of_scope", "package_and_convert",
    "pkg.install", "search_files"]

def actionStrings : List String :=
  ["create_dir", "create_file", "open_file", "open_files", "install_package", "convert_media",
    "refactor_code", "run_tests", "search_files", "download_file", "send_email", "delete_path",
    "delete_files"]

def domainValues : List String :=
  ["system", "robotics", "robotique", "finance", "media", "coding", "work", "downloads"]

def contextChars : List (Char × Char) := [('a', 'z'), ('_', '_')]

def targetChars : List (Char × Char) :=
  [('a', 'z'), ('A', 'Z'), ('0', '9'), ('_', '_'), ('.', '.'), ('/', '/'), ('~', '~'), (':', ':'),
    ('=', '='), ('?', '?'), ('&', '&'), ('-', '-')]

def questionChars : List (Char × Char) :=
  [('a', 'z'), ('A', 'Z'), ('0', '9'), (' ', ' '), (',', ','), ('?', '?'), ('.', '.'), ('_', '_'),
    ('-', '-')]

/-- `"0" ( "." [0-9]{1,2} )? | "1" ( "." "0"{1,2} )?` -/
def unit : Rhs :=
  .alt [.seq [.lit "0", .opt (.seq [.lit ".", .rep (.cls [('0', '9')]) 1 (some 2)])],
    .seq [.lit "1", .opt (.seq [.lit ".", .rep (.lit "0") 1 (some 2)])]]

def grammar : Grammar :=
  [("root", .alt [.rule "root-clear", .rule "root-disamb"]),
    ("root-clear", intentObject (.rule "candidate-array") (.lit "false") (.lit "null")),
    ("root-disamb", intentObject (.rule "candidate-array-nonempty") (.lit "true")
      (.rule "question-string")),
    ("candidate-array", array (.rule "candidate")),
    ("candidate-array-nonempty", arrayOfMany (.rule "candidate")),
    ("candidate", object [("action", .rule "action-string"), ("target", .rule "target-string"),
      ("confidence", .rule "unit"), ("recency_score", .rule "unit")]),
    ("context-key", textOf (.cls contextChars) 1 24),
    ("string-array", array (.rule "context-key")),
    ("goal-string", .alt (goalStrings.map quoted)),
    ("action-string", .alt (actionStrings.map quoted)),
    ("target-string", textOf (.rule "target-char") 1 80),
    ("target-char", .cls targetChars),
    ("question-string", textOf (.rule "question-char") 1 80),
    ("question-char", .cls questionChars),
    ("domain-value", .alt (.lit "null" :: domainValues.map quoted)),
    ("boolean", .alt [.lit "true", .lit "false"]),
    ("unit", unit),
    ("space", .lit " ")]

/-! ## Strings -/

theorem forms_contextKey :
    Forms grammar (.rule "context-key") fun v => valid contextKeySchema v = true := by
  refine .rule rfl (.textOf contextChars (fun cs h => derives_cls_iff.mp h)
    (fun c => plain_of_inClass (by decide)) ?_)
  intro t hall hlo hhi
  refine valid_iff.mpr ?_
  simp only [contextKeySchema, List.forall_mem_cons, List.not_mem_nil, false_implies, implies_true,
    and_true]
  refine ⟨rfl, ?_⟩
  simp only [Keyword.holds, Bool.and_eq_true, decide_eq_true_eq]
  exact ⟨⟨List.all_eq_true.mpr hall, hlo⟩, hhi⟩

/-- The classes of the grammar and of the schema are one. -/
theorem inClass_target {c : Char} (h : Text.inClass targetChars c = true) :
    Text.inClass [('~', '~'), ('.', '.'), ('/', '/'), ('a', 'z'), ('A', 'Z'), ('0', '9'),
      ('_', '_'), (':', ':'), ('/', '/'), ('=', '='), ('?', '?'), ('&', '&'), ('-', '-')] c =
      true := by
  obtain ⟨r, hr, hc⟩ := List.any_eq_true.mp h
  refine List.any_eq_true.mpr ⟨r, ?_, hc⟩
  have hall : ∀ r ∈ targetChars, r ∈ [('~', '~'), ('.', '.'), ('/', '/'), ('a', 'z'), ('A', 'Z'),
      ('0', '9'), ('_', '_'), (':', ':'), ('/', '/'), ('=', '='), ('?', '?'), ('&', '&'),
      ('-', '-')] := by decide
  exact hall r hr

theorem derives_char {name : String} {ranges : List (Char × Char)}
    (hname : grammar.lookup name = some (.cls ranges)) {cs : List Char}
    (h : Derives grammar (.rule name) cs) :
    ∃ c, cs = [c] ∧ Text.inClass ranges c = true := by
  obtain ⟨r, hr, hcs⟩ := derives_rule_iff.mp h
  obtain rfl := Option.some.inj (hname.symm.trans hr)
  exact derives_cls_iff.mp hcs

theorem forms_target :
    Forms grammar (.rule "target-string") fun v => valid targetSchema v = true := by
  refine .rule rfl (.textOf targetChars (fun cs => derives_char rfl)
    (fun c => plain_of_inClass (by decide)) ?_)
  intro t hall hlo hhi
  refine valid_iff.mpr ?_
  simp only [targetSchema, List.forall_mem_cons, List.not_mem_nil, false_implies, implies_true,
    and_true]
  refine ⟨rfl, ?_⟩
  simp only [Keyword.holds, Bool.and_eq_true, decide_eq_true_eq]
  exact ⟨⟨List.all_eq_true.mpr fun c hc => inClass_target (hall c hc), hlo⟩, hhi⟩

theorem forms_question : Forms grammar (.rule "question-string") fun v => ∃ t, v = .str t :=
  .rule rfl (.textOf questionChars (fun cs => derives_char rfl)
    (fun c => plain_of_inClass (by decide)) fun t _ _ _ => ⟨t, rfl⟩)

/-! ## Words -/

theorem forms_goal : Forms grammar (.rule "goal-string") fun v =>
    valid [.type [.string], .enum (goalEnum.map some)] v = true :=
  .rule rfl (.strings (by decide) (by decide))

theorem forms_action : Forms grammar (.rule "action-string") fun v =>
    valid [.type [.string], .enum (actionEnum.map some)] v = true :=
  .rule rfl (.strings (by decide) (by decide))

theorem forms_domain : Forms grammar (.rule "domain-value") fun v =>
    valid [.type [.string, .null], .enum domainEnum] v = true := by
  refine .rule rfl (.alt (List.forall_mem_cons.mpr ⟨?_, ?_⟩))
  · exact .lit (v := .null) (t := .null) rfl rfl (by decide)
  · intro r hr
    obtain ⟨t, ht, rfl⟩ := List.mem_map.mp hr
    have hplain : ∀ t ∈ domainValues, t.toList.all plain = true := by decide
    have hvalid : ∀ t ∈ domainValues,
        valid [.type [.string, .null], .enum domainEnum] (.str t) = true := by decide
    exact .quoted (hplain t ht) (hvalid t ht)

theorem forms_true : Forms grammar (.lit "true") fun v => v = .bool true :=
  .lit (t := .tru) rfl rfl rfl

theorem forms_false : Forms grammar (.lit "false") fun v => v = .bool false :=
  .lit (t := .fls) rfl rfl rfl

theorem forms_null : Forms grammar (.lit "null") fun v => v = .null :=
  .lit (t := .null) rfl rfl rfl

theorem forms_boolean :
    Forms grammar (.rule "boolean") fun v => valid [.type [.boolean]] v = true := by
  refine .rule rfl (.alt ?_)
  simp only [List.forall_mem_cons, List.not_mem_nil, false_implies, implies_true, and_true]
  refine ⟨forms_true.mono ?_, forms_false.mono ?_⟩
  · rintro v rfl
    rfl
  · rintro v rfl
    rfl

/-! ## Numbers -/

/-- The characters are a number from zero to one. -/
def IsUnit (cs : List Char) : Prop :=
  Json.isNumber cs = true ∧ 0 ≤ Json.numberOf cs ∧ Json.numberOf cs ≤ 1

instance (cs : List Char) : Decidable (IsUnit cs) :=
  inferInstanceAs (Decidable (Json.isNumber cs = true ∧ 0 ≤ Json.numberOf cs ∧
    Json.numberOf cs ≤ 1))

theorem exists_spelled_of_isUnit {cs : List Char} (h : IsUnit cs) :
    ∃ v, valid unitSchema v = true ∧ Spells cs v.toks := by
  have hnumber : Json.isNumber (String.ofList cs).toList = true := by
    rw [String.toList_ofList]
    exact h.1
  have hvalue : (⟨String.ofList cs, hnumber⟩ : Json.NumLit).value = Json.numberOf cs :=
    congrArg Json.numberOf String.toList_ofList
  refine ⟨.num ⟨String.ofList cs, hnumber⟩, ?_, ?_⟩
  · refine valid_iff.mpr ?_
    simp only [unitSchema, List.forall_mem_cons, List.not_mem_nil, false_implies, implies_true,
      and_true]
    refine ⟨rfl, decide_eq_true ?_, decide_eq_true ?_⟩
    · rw [hvalue]
      exact h.2.1
    · rw [hvalue]
      exact h.2.2
  · have := Spells.tok (.num ⟨String.ofList cs, hnumber⟩)
    rwa [Json.Tok.text, String.toList_ofList] at this

def digits : List Char := ['0', '1', '2', '3', '4', '5', '6', '7', '8', '9']

theorem mem_digits {c : Char} (h : Text.inClass [('0', '9')] c = true) : c ∈ digits := by
  simp only [Text.inClass, List.any_cons, List.any_nil, Bool.or_false, Bool.and_eq_true,
    decide_eq_true_eq] at h
  have hlow : 48 ≤ c.toNat := h.1
  have hhigh : c.toNat ≤ 57 := h.2
  have hall : ∀ n < 10, Char.ofNat (48 + n) ∈ digits := by decide
  have hc : c = Char.ofNat (48 + (c.toNat - 48)) := by
    rw [Nat.add_sub_cancel' hlow, Char.ofNat_toNat]
  rw [hc]
  exact hall _ (by omega)

/-- One or two characters of some. -/
theorem one_or_two {cs : List Char} {p : Char → Prop} (hall : ∀ c ∈ cs, p c) (hlo : 1 ≤ cs.length)
    (hhi : cs.length ≤ 2) : (∃ c, p c ∧ cs = [c]) ∨ ∃ c d, p c ∧ p d ∧ cs = [c, d] := by
  match cs, hlo, hhi with
  | [c], _, _ => exact Or.inl ⟨c, hall c (by simp), rfl⟩
  | [c, d], _, _ => exact Or.inr ⟨c, d, hall c (by simp), hall d (by simp), rfl⟩

/-- The digit before the point, and what may follow. -/
theorem unit_cases {s : String} {item : Rhs} {ranges : List (Char × Char)}
    (hitem : ∀ ds, Derives grammar item ds → ∃ c, ds = [c] ∧ Text.inClass ranges c = true)
    {cs : List Char} (h : Derives grammar
      (.seq [.lit s, .opt (.seq [.lit ".", .rep item 1 (some 2)])]) cs) :
    cs = s.toList ∨
      (∃ c, Text.inClass ranges c = true ∧ cs = s.toList ++ ['.', c]) ∨
      ∃ c d, Text.inClass ranges c = true ∧ Text.inClass ranges d = true ∧
        cs = s.toList ++ ['.', c, d] := by
  obtain ⟨cs₁, rfl, h₁⟩ := derives_lit_cons_iff.mp h
  obtain ⟨cs₂, cs₃, rfl, h₂, h₃⟩ := derives_cons_iff.mp h₁
  obtain rfl := derives_nil_iff.mp h₃
  rcases derives_opt_iff.mp h₂ with rfl | hfrac
  · left
    simp
  · obtain ⟨cs₄, rfl, h₄⟩ := derives_lit_cons_iff.mp hfrac
    obtain ⟨ds, cs₅, rfl, hds, h₅⟩ := derives_cons_iff.mp h₄
    obtain rfl := derives_nil_iff.mp h₅
    obtain ⟨hall, hlo, hhi⟩ := chars_of_rep hitem hds
    right
    rcases one_or_two hall hlo (hhi 2 rfl) with ⟨c, hc, rfl⟩ | ⟨c, d, hc, hd, rfl⟩
    · exact Or.inl ⟨c, hc, by simp⟩
    · exact Or.inr ⟨c, d, hc, hd, by simp⟩

theorem isUnit_of_derives {cs : List Char} (h : Derives grammar unit cs) : IsUnit cs := by
  have hone_digit : (digits.all fun c => decide (IsUnit ['0', '.', c])) = true := by
    decide +kernel
  have htwo_digits : (digits.all fun c => digits.all fun d => decide (IsUnit ['0', '.', c, d])) =
      true := by decide +kernel
  obtain ⟨r, hr, hcs⟩ := derives_alt_iff.mp h
  simp only [List.mem_cons, List.not_mem_nil, or_false] at hr
  rcases hr with rfl | rfl
  · rcases unit_cases (fun ds hds => derives_cls_iff.mp hds) hcs with
      rfl | ⟨c, hc, rfl⟩ | ⟨c, d, hc, hd, rfl⟩
    · decide +kernel
    · exact of_decide_eq_true (List.all_eq_true.mp hone_digit c (mem_digits hc))
    · have hrow := List.all_eq_true.mp htwo_digits c (mem_digits hc)
      exact of_decide_eq_true (List.all_eq_true.mp hrow d (mem_digits hd))
  · have hitem : ∀ ds, Derives grammar (.lit "0") ds →
        ∃ c, ds = [c] ∧ Text.inClass [('0', '0')] c = true := by
      intro ds hds
      exact ⟨'0', derives_lit_iff.mp hds, by decide⟩
    have heq : ∀ c, Text.inClass [('0', '0')] c = true → c = '0' := by
      intro c hc
      simp only [Text.inClass, List.any_cons, List.any_nil, Bool.or_false, Bool.and_eq_true,
        decide_eq_true_eq] at hc
      exact le_antisymm hc.2 hc.1
    rcases unit_cases hitem hcs with rfl | ⟨c, hc, rfl⟩ | ⟨c, d, hc, hd, rfl⟩
    · decide +kernel
    · rw [heq c hc]
      decide +kernel
    · rw [heq c hc, heq d hd]
      decide +kernel

theorem forms_unit : Forms grammar (.rule "unit") fun v => valid unitSchema v = true :=
  .rule rfl fun _ h => exists_spelled_of_isUnit (isUnit_of_derives h)

/-! ## Objects -/

theorem forms_candidate :
    Forms grammar (.rule "candidate") fun v => valid candidateActionSchema v = true := by
  refine .rule rfl ((Forms.object (P := fun name v =>
    ∃ s, candidateProperties.lookup name = some s ∧ valid s v = true) rfl
    ["action", "target", "confidence", "recency_score"] rfl (by decide) ?_).mono ?_)
  · simp only [List.forall_mem_cons, List.not_mem_nil, false_implies, implies_true, and_true]
    exact ⟨forms_action.mono fun v hv => ⟨_, rfl, hv⟩, forms_target.mono fun v hv => ⟨_, rfl, hv⟩,
      forms_unit.mono fun v hv => ⟨_, rfl, hv⟩, forms_unit.mono fun v hv => ⟨_, rfl, hv⟩⟩
  · rintro v ⟨fs, rfl, hnames, hfs⟩
    exact valid_of_members hnames hfs

theorem forms_stringArray : Forms grammar (.rule "string-array") fun v =>
    valid [.type [.array], .items contextKeySchema] v = true := by
  refine .rule rfl ((Forms.array rfl forms_contextKey).mono ?_)
  rintro v ⟨vs, rfl, hvs⟩
  refine valid_iff.mpr ?_
  simp only [List.forall_mem_cons, List.not_mem_nil, false_implies, implies_true, and_true]
  exact ⟨rfl, List.all_eq_true.mpr hvs⟩

/-- What an intent's object spells: a valid value, whose question goes with its flag. -/
theorem forms_intentObject {candidates required question : Rhs} {P Q : Value → Prop}
    (hcandidates : Forms grammar candidates fun v =>
      valid [.type [.array], .items candidateActionSchema] v = true)
    (hrequired : Forms grammar required fun v => valid [.type [.boolean]] v = true ∧ P v)
    (hquestion : Forms grammar question fun v =>
      valid [.type [.string, .null]] v = true ∧ Q v) :
    Forms grammar (intentObject candidates required question) fun v =>
      valid llmOutputSchema v = true ∧ P (v.index "disambiguation_required") ∧
        Q (v.index "disambiguation_question") := by
  refine (Forms.object (P := fun name v =>
    (∃ s, llmOutputProperties.lookup name = some s ∧ valid s v = true) ∧
      (name = "disambiguation_required" → P v) ∧ (name = "disambiguation_question" → Q v)) rfl
    llmOutputRequired rfl (by decide) ?_).mono ?_
  · simp only [List.forall_mem_cons, List.not_mem_nil, false_implies, implies_true, and_true]
    have other : ∀ {r : Rhs} {s : Schema} {name : String},
        Forms grammar r (fun v => valid s v = true) → llmOutputProperties.lookup name = some s →
        name ≠ "disambiguation_required" → name ≠ "disambiguation_question" →
        Forms grammar r fun v => (∃ s, llmOutputProperties.lookup name = some s ∧
          valid s v = true) ∧ (name = "disambiguation_required" → P v) ∧
          (name = "disambiguation_question" → Q v) := by
      intro r s name hr hs hne hne'
      exact hr.mono fun v hv => ⟨⟨s, hs, hv⟩, fun h => absurd h hne, fun h => absurd h hne'⟩
    refine ⟨other forms_goal rfl ?_ ?_, other forms_domain rfl ?_ ?_, other forms_unit rfl ?_ ?_,
      other forms_unit rfl ?_ ?_, other forms_unit rfl ?_ ?_, other forms_stringArray rfl ?_ ?_,
      other hcandidates rfl ?_ ?_, ?_, ?_, other forms_unit rfl ?_ ?_,
      other forms_boolean rfl ?_ ?_⟩
    case refine_15 =>
      exact hrequired.mono fun v hv => ⟨⟨_, rfl, hv.1⟩, fun _ => hv.2,
        fun h => absurd h (by decide)⟩
    case refine_16 =>
      exact hquestion.mono fun v hv => ⟨⟨_, rfl, hv.1⟩, fun h => absurd h (by decide),
        fun _ => hv.2⟩
    all_goals decide
  · rintro v ⟨fs, rfl, hnames, hfs⟩
    refine ⟨valid_of_members hnames fun f hf => (hfs f hf).1, ?_, ?_⟩
    · exact (hfs _ (mem_index (by rw [hnames]; decide))).2.1 rfl
    · exact (hfs _ (mem_index (by rw [hnames]; decide))).2.2 rfl

/-- A value the validator takes. -/
def Answerable (v : Value) : Prop :=
  valid llmOutputSchema v = true ∧ ¬ (v.index "disambiguation_required" = .bool true ∧
    v.index "disambiguation_question" = .null)

theorem valid_candidates {vs : List Value} (h : ∀ v ∈ vs, valid candidateActionSchema v = true) :
    valid [.type [.array], .items candidateActionSchema] (.arr vs) = true := by
  refine valid_iff.mpr ?_
  simp only [List.forall_mem_cons, List.not_mem_nil, false_implies, implies_true, and_true]
  exact ⟨rfl, List.all_eq_true.mpr h⟩

theorem forms_rootClear : Forms grammar (.rule "root-clear") Answerable := by
  refine .rule rfl ((forms_intentObject (P := fun v => v = .bool false) (Q := fun v => v = .null)
    ?_ ?_ ?_).mono ?_)
  · refine .rule rfl ((Forms.array rfl forms_candidate).mono ?_)
    rintro v ⟨vs, rfl, hvs⟩
    exact valid_candidates hvs
  · refine forms_false.mono ?_
    rintro v rfl
    exact ⟨rfl, rfl⟩
  · refine forms_null.mono ?_
    rintro v rfl
    exact ⟨rfl, rfl⟩
  · rintro v ⟨hvalid, hclear, -⟩
    refine ⟨hvalid, ?_⟩
    rintro ⟨hrequired, -⟩
    rw [hclear] at hrequired
    cases hrequired

theorem forms_rootDisamb : Forms grammar (.rule "root-disamb") Answerable := by
  refine .rule rfl ((forms_intentObject (P := fun v => v = .bool true)
    (Q := fun v => ∃ t, v = .str t) ?_ ?_ ?_).mono ?_)
  · refine .rule rfl ((Forms.arrayOfMany rfl forms_candidate).mono ?_)
    rintro v ⟨vs, rfl, -, hvs⟩
    exact valid_candidates hvs
  · refine forms_true.mono ?_
    rintro v rfl
    exact ⟨rfl, rfl⟩
  · refine forms_question.mono ?_
    rintro v ⟨t, rfl⟩
    exact ⟨rfl, t, rfl⟩
  · rintro v ⟨hvalid, -, t, hquestion⟩
    refine ⟨hvalid, ?_⟩
    rintro ⟨-, hnull⟩
    rw [hquestion] at hnull
    cases hnull

theorem forms_root : Forms grammar (.rule "root") Answerable := by
  refine .rule rfl (.alt ?_)
  simp only [List.forall_mem_cons, List.not_mem_nil, false_implies, implies_true, and_true]
  exact ⟨forms_rootClear, forms_rootDisamb⟩

/-! ## Accepted -/

/-- Every text of the grammar is accepted with its own values: its candidates are kept in order,
and all scores are from zero to one. -/
theorem grammar_sound {R : Reader} {cs : List Char} (h : Derives grammar (.rule "root") cs)
    (fresh : Uuid) (userInput : String) (session : SessionContext) :
    ∃ v s, Json.parseText (String.ofList cs) = some v ∧
      parseLlmOutputWithContext R fresh (String.ofList cs) userInput session = .ok s ∧
      Carries R v s ∧ ∀ x ∈ s.scores, 0 ≤ x ∧ x ≤ 1 := by
  obtain ⟨v, ⟨hvalid, hasks⟩, hspells⟩ := forms_root cs h
  have hraw := parseText_of_spells hspells
  have hread : Readable R v := (readable_iff_of_valid hvalid).mpr hasks
  obtain ⟨s, hs, hcarries⟩ :
      ∃ s, parseLlmOutputWithContext R fresh (String.ofList cs) userInput session = .ok s ∧
        Carries R v s := exists_carried hraw hvalid hread
  have haccepted := accepted_of_parsed (fromStr_of_valid hraw hvalid) hs
  exact ⟨v, s, hraw, hs, hcarries, scores_of_accepted haccepted⟩

/-- One text of the grammar: two candidates, nothing to ask. -/
def firstText : List Char := (Gbnf.sample grammar 200 (.rule "root")).getD []

theorem grammar_sound_first : ∃ v s, Json.parseText (String.ofList firstText) = some v ∧
    parseLlmOutputWithContext Reader.sample .nil (String.ofList firstText) "mkdir" session = .ok s ∧
      Carries Reader.sample v s ∧ ∀ x ∈ s.scores, 0 ≤ x ∧ x ≤ 1 := by
  have hsome : (Gbnf.sample grammar 200 (.rule "root")).isSome = true := by decide
  obtain ⟨cs, hcs⟩ := Option.isSome_iff_exists.mp hsome
  have hfirst : firstText = cs := by
    rw [firstText, hcs]
    rfl
  rw [hfirst]
  exact grammar_sound (derives_sample hcs) .nil "mkdir" session

end IntentEngine

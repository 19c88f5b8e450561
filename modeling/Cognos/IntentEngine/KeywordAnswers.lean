/-
# `Cognos.IntentEngine.KeywordAnswers` — what the keyword backend answers

Whatever text and session it is given: if the keyword backend writes an intent, the parser
accepts it, with the confidence it was written with, and it neither escalates nor hides where
it comes from.  It writes one for all words the parser hands it, and is asked exactly when the
primary backend failed.

    read_infer         an intent that is written is accepted with its confidence
    consulted_iff      when the keyword backend has a say
    keyword_answers    all of it
-/
import Mathlib
import Cognos.IntentEngine.KeywordBackend

namespace IntentEngine

open Json (Value Reader NumLit)
open FloatText (narrow)

/-! ## Numbers -/

/-- The two confidences, their texts and what these are as `f64`s. -/
def confidences : List (Float32 × String × Float) :=
  [(KeywordBackend.certainConfidence, "0.4", 0.4),
    (KeywordBackend.uncertainConfidence, "0.25", 0.25)]

/-- They are written in their shortest texts, and these are read as the nearest `f64`s. -/
structure ShortTexts (R : Reader) (printF32 : Float32 → NumLit) : Prop where
  print : ∀ r ∈ confidences, (printF32 r.1).text = r.2.1
  read : ∀ r ∈ confidences, ∀ n, n.text = r.2.1 → R.asF64 n = some r.2.2

theorem narrow_confidences : ∀ r ∈ confidences, narrow r.2.2 = r.1 := by
  decide

section Answers

variable {R : Reader} {printF32 : Float32 → NumLit}

/-- A confidence is read as it was written. -/
theorem parseF32_confidence (hshort : ShortTexts R printF32) {v : Value} {field : String}
    {r : Float32 × String × Float} (hr : r ∈ confidences)
    (hfield : v.index field = scoreJson printF32 r.1) {val : Float32}
    (hval : parseF32 R v field = .ok val) : val = r.1 := by
  obtain ⟨⟨x, hx, rfl⟩, -⟩ := (parseF32_ok_iff R).mp hval
  have hfinite : ∀ r ∈ confidences, r.1.isFinite = true := by decide
  rw [hfield, scoreJson, if_pos (hfinite r hr)] at hx
  obtain rfl : r.2.2 = x :=
    Option.some.inj ((hshort.read r hr _ (hshort.print r hr)).symm.trans hx)
  exact narrow_confidences r hr

/-! ## What is written is accepted -/

/-- What the backend puts into an intent. -/
theorem buildIntent_low {fresh : Uuid} {words : String} {session : SessionContext}
    {s : IntentSchema} (h : KeywordBackend.buildIntent fresh words session = some s) :
    (∃ r ∈ confidences, s.confidence = r.1) ∧ s.source = some keywordFallbackSource ∧
      s.escalateToCloud = false := by
  obtain ⟨target, -, hs⟩ := Option.bind_eq_some_iff.mp h
  obtain rfl := Option.some.inj hs
  refine ⟨?_, rfl, rfl⟩
  cases (classify words).2 with
  | true => exact ⟨_, List.mem_cons_self, rfl⟩
  | false => exact ⟨_, List.mem_cons_of_mem _ List.mem_cons_self, rfl⟩

/-- An intent that is written is accepted with its confidence. -/
theorem read_infer (hprint : PrintsUnit printF32) (hshort : ShortTexts R printF32)
    {fresh : Uuid} {words json : String} {session : SessionContext}
    (h : KeywordBackend.infer printF32 fresh words session = some (.ok json)) (fresh' : Uuid)
    (input : String) (session' : SessionContext) :
    ∃ s, parseLlmOutputWithContext R fresh' json input session' = .ok s ∧ s.confidence ≤ 0.4 ∧
      s.source = some keywordFallbackSource ∧ s.escalateToCloud = false := by
  unfold KeywordBackend.infer at h
  split at h
  · cases h
  · obtain ⟨intent, hintent, hjson⟩ := Option.map_eq_some_iff.mp h
    obtain rfl := Except.ok.inj hjson
    obtain ⟨⟨r, hr, hconfidence⟩, hsource, hescalate⟩ := buildIntent_low hintent
    obtain ⟨target, htarget, -⟩ := Option.bind_eq_some_iff.mp hintent
    obtain ⟨intent', hintent', hgoal, -, hscores, hasks⟩ :=
      buildIntent_of_target fresh session htarget
    obtain rfl := Option.some.inj (hintent.symm.trans hintent')
    -- a request that brings these words and this session
    let r' : ParseRequest := { askOpen "12:00" 0 with rawInput := input, session := session' }
    obtain ⟨s, hread, -⟩ := read_json (R := R) hprint hscores (hgoal ▸ trim_classify _) hasks
      fresh' r'
    obtain ⟨hdepth, hnums⟩ := fits_json (R := R) hprint hscores
    have haccepted : Accepted R fresh' (intent.json printF32) (some ⟨input, session'⟩) s := by
      rw [← readIntent_ok_iff R, ← hread, readAnswer, parseLlmOutputWithContext,
        parseLlmOutputWithInjection, R.fromStr_print (hdepth.trans (by decide)) hnums]
    have hsource' : (intent.json printF32).index "source" = .str keywordFallbackSource := by
      unfold IntentSchema.json
      rw [hsource]
      rfl
    have hescalate' : (intent.json printF32).index "escalate_to_cloud" = .bool false := by
      unfold IntentSchema.json
      rw [hsource, hescalate]
      rfl
    refine ⟨s, hread, ?_, ?_, ?_⟩
    · have hindex : (intent.json printF32).index "confidence" = scoreJson printF32 r.1 := by
        rw [(index_json printF32 intent).2.1, hconfidence]
      rw [parseF32_confidence hshort hr hindex haccepted.confidence]
      have hlow : ∀ r ∈ confidences, r.1 ≤ 0.4 := by decide
      exact hlow r hr
    · rw [haccepted.source, hsource']
      rfl
    · rw [haccepted.escalateToCloud, hescalate']
      rfl

/-! ## When it writes one -/

/-- It answers an error for blank words, and only for these. -/
theorem infer_error_iff {fresh : Uuid} {words e : String} {session : SessionContext} :
    KeywordBackend.infer printF32 fresh words session = some (.error e) ↔
      Text.trim words = "" ∧ e = "keyword fallback: empty input, nothing to classify" := by
  unfold KeywordBackend.infer
  split
  · next hblank =>
      constructor
      · intro h
        exact ⟨hblank, (Except.error.inj (Option.some.inj h)).symm⟩
      · rintro ⟨-, rfl⟩
        rfl
  · next hblank =>
      constructor
      · intro h
        obtain ⟨intent, -, hok⟩ := Option.map_eq_some_iff.mp h
        cases hok
      · rintro ⟨h, -⟩
        exact absurd h hblank

/-- It writes an intent for all words a parser hands it. -/
theorem exists_infer (printF32 : Float32 → NumLit) (fresh : Uuid) {raw : String}
    (h : normalize raw ≠ "") (session : SessionContext) :
    ∃ json, KeywordBackend.infer printF32 fresh (normalize raw) session = some (.ok json) := by
  have htarget : extractTargetForAction (classify (normalize raw)).1 (normalize raw) = _ :=
    extractTarget_normalize _
  obtain ⟨s, hs, -⟩ := buildIntent_of_target fresh session htarget
  refine ⟨(s.json printF32).print, ?_⟩
  unfold KeywordBackend.infer
  rw [if_neg (trim_normalize h), hs]
  rfl

/-! ## When it is asked -/

/-- The answer depends on the keyword backend. -/
def Consulted (primary : String → SessionContext → Except String String) (words : String)
    (session : SessionContext) : Prop :=
  ∃ keyword keyword' : Infer, FallbackBackend.infer primary keyword words session ≠
    FallbackBackend.infer primary keyword' words session

/-- It is asked when the primary backend failed. -/
theorem consulted_iff {primary : String → SessionContext → Except String String} {words : String}
    {session : SessionContext} :
    Consulted primary words session ↔ ∃ e, primary words session = .error e := by
  constructor
  · rintro ⟨keyword, keyword', hne⟩
    cases hprimary : primary words session with
    | error e => exact ⟨e, rfl⟩
    | ok output =>
        simp only [FallbackBackend.infer, hprimary] at hne
        exact absurd rfl hne
  · rintro ⟨e, he⟩
    refine ⟨fun _ _ => none, fun _ _ => some (.ok ""), ?_⟩
    simp only [FallbackBackend.infer, he]
    intro h
    cases h

/-- What it writes is then the answer, as it is. -/
theorem infer_of_error {primary : String → SessionContext → Except String String} {keyword : Infer}
    {words e : String} {session : SessionContext} (he : primary words session = .error e)
    (json : String) :
    FallbackBackend.infer primary keyword words session = some (.ok json) ↔
      keyword words session = some (.ok json) := by
  simp only [FallbackBackend.infer, he]
  cases keyword words session with
  | none => exact Iff.rfl
  | some result =>
      cases result with
      | error e' =>
          refine iff_of_false ?_ ?_
          · rintro ⟨⟩
          · rintro ⟨⟩
      | ok output => exact Iff.rfl

/-! ## All of it -/

/-- For every text and session: the intent the keyword backend writes is accepted, with a
confidence of four tenths at most, as its own, and without escalating; it writes one for all words
the parser hands it, and fails on blank ones only; and it is asked exactly when the primary backend
failed. -/
theorem keyword_answers (hprint : PrintsUnit printF32) (hshort : ShortTexts R printF32) :
    (∀ (fresh : Uuid) (words json : String) (session : SessionContext),
      KeywordBackend.infer printF32 fresh words session = some (.ok json) →
        ∀ (fresh' : Uuid) (input : String) (session' : SessionContext),
          ∃ s, parseLlmOutputWithContext R fresh' json input session' = .ok s ∧
            s.confidence ≤ 0.4 ∧ s.source = some keywordFallbackSource ∧
            s.escalateToCloud = false) ∧
    (∀ (fresh : Uuid) (raw : String) (session : SessionContext), normalize raw ≠ "" →
      ∃ json, KeywordBackend.infer printF32 fresh (normalize raw) session = some (.ok json)) ∧
    (∀ (fresh : Uuid) (words e : String) (session : SessionContext),
      KeywordBackend.infer printF32 fresh words session = some (.error e) →
        Text.trim words = "") ∧
    ∀ (primary : String → SessionContext → Except String String) (words : String)
      (session : SessionContext),
      (Consulted primary words session ↔ ∃ e, primary words session = .error e) ∧
      ∀ (fresh : Uuid) (e json : String), primary words session = .error e →
        (FallbackBackend.infer primary (KeywordBackend.infer printF32 fresh) words session =
            some (.ok json) ↔
          KeywordBackend.infer printF32 fresh words session = some (.ok json)) := by
  refine ⟨?_, ?_, ?_, ?_⟩
  · intro fresh words json session h fresh' input session'
    exact read_infer hprint hshort h fresh' input session'
  · intro fresh raw session h
    exact exists_infer printF32 fresh h session
  · intro fresh words e session h
    exact (infer_error_iff.mp h).1
  · intro primary words session
    exact ⟨consulted_iff, fun fresh e json he => infer_of_error he json⟩

end Answers

/-! ## A package -/

/-- The sample, which also reads the two confidences. -/
def confidenceReader : Reader where
  asF64 n := if n.text = "0.4" then some 0.4 else if n.text = "0.25" then some 0.25
    else Reader.sample.asF64 n
  errorText := Reader.sample.errorText
  isNaN_asF64 n x h := by
    split_ifs at h
    · obtain rfl := Option.some.inj h
      decide
    · obtain rfl := Option.some.inj h
      decide
    · exact Reader.sample.isNaN_asF64 n x h
  unit_asF64 n hlow hhigh := by
    split_ifs
    · exact ⟨_, rfl, by decide⟩
    · exact ⟨_, rfl, by decide⟩
    · exact Reader.sample.unit_asF64 n hlow hhigh
  asF64_literals r hr n htext := by
    have hother : ∀ r ∈ Json.literals, r.1 ≠ "0.4" ∧ r.1 ≠ "0.25" := by decide
    rw [if_neg (htext ▸ (hother r hr).1), if_neg (htext ▸ (hother r hr).2)]
    exact Reader.sample.asF64_literals r hr n htext

theorem shortTexts_sample : ShortTexts confidenceReader shortest where
  print := by decide
  read := by
    intro r hr n htext
    rcases List.mem_cons.mp hr with rfl | hr
    · exact if_pos htext
    · obtain rfl := List.mem_singleton.mp hr
      exact (if_neg (by rw [htext]; decide)).trans (if_pos htext)

/-- Words that no rule matches, in quotes and with a line break: accepted. -/
theorem keyword_answers_quotes : ∃ json s,
    KeywordBackend.infer shortest .nil (normalize "say \"hello\"\n") session =
        some (.ok json) ∧
      parseLlmOutputWithContext confidenceReader .nil json "say \"hello\"\n" session = .ok s ∧
      s.confidence ≤ 0.4 := by
  have hall := keyword_answers (R := confidenceReader) printsUnit_shortest shortTexts_sample
  have hwords : normalize "say \"hello\"\n" ≠ "" := by decide
  obtain ⟨json, hjson⟩ := hall.2.1 .nil "say \"hello\"\n" session hwords
  obtain ⟨s, hs, hlow, -⟩ := hall.1 .nil _ json session hjson .nil "say \"hello\"\n" session
  exact ⟨json, s, hjson, hs, hlow⟩

end IntentEngine

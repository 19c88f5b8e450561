/-
# `Cognos.IntentEngine.Choice` — a question, or a choice

Two functions of `disambiguation.rs` decide whether to ask: `select_question` gives the question
or nothing, `try_auto_resolve` the choice or nothing.  They agree on everything but one
candidate, for which there is no question, and no choice either unless one was learned.

`resolve` chooses by the user's words, else by confidence.  It takes for granted that there is
something to choose from, which the parser does not.

    question_xor_choice_iff   exactly one of the two answers, when there are two candidates or
                              more, or a learned choice
    resolve_documented_iff    the choice by the user's words is the documented one, when there
                              are candidates
-/
import Mathlib
import Cognos.IntentEngine.Parser

namespace IntentEngine

open Json (Reader)
open FloatText (rank lt_iff_rank le_iff_rank)

/-! ## The greatest -/

section MaxBy

variable {α κ : Type} [LinearOrder κ] {greater : α → α → Bool} {as : List α}

theorem isSome_maxBy : (maxBy greater as).isSome = true ↔ as ≠ [] := by
  cases as with
  | nil => exact iff_of_false Bool.false_ne_true fun h => h rfl
  | cons a as => exact iff_of_true rfl (List.cons_ne_nil a as)

/-- Nothing is greater by the key than what is selected by it. -/
theorem maxBy_max (key : α → κ)
    (hkey : ∀ a ∈ as, ∀ b ∈ as, greater a b = true ↔ key b < key a) {b : α}
    (h : maxBy greater as = some b) : ∀ a ∈ as, key a ≤ key b := by
  -- the best so far beats all that were passed over
  have hfold : ∀ (bs : List α) (c : α), c ∈ as → (∀ a ∈ bs, a ∈ as) → ∀ a ∈ c :: bs,
      key a ≤ key (bs.foldl (fun best c => if greater best c then best else c) c) := by
    intro bs
    induction bs with
    | nil =>
        intro c _ _ a ha
        rw [List.mem_singleton.mp ha]
        exact le_refl _
    | cons d bs ih =>
        intro c hc hbs a ha
        have hd := hbs d List.mem_cons_self
        have hrest : ∀ a ∈ bs, a ∈ as := fun a ha => hbs a (List.mem_cons_of_mem _ ha)
        rw [List.foldl_cons]
        split_ifs with hgreater
        · have hless := (hkey c hc d hd).mp hgreater
          rcases List.mem_cons.mp ha with rfl | ha
          · exact ih a hc hrest a List.mem_cons_self
          · rcases List.mem_cons.mp ha with rfl | ha
            · exact hless.le.trans (ih c hc hrest c List.mem_cons_self)
            · exact ih c hc hrest a (List.mem_cons_of_mem _ ha)
        · have hle := not_lt.mp fun hlt => hgreater ((hkey c hc d hd).mpr hlt)
          rcases List.mem_cons.mp ha with rfl | ha
          · exact hle.trans (ih d hd hrest d List.mem_cons_self)
          · exact ih d hd hrest a ha
  cases as with
  | nil => cases h
  | cons a as =>
      obtain rfl := Option.some.inj h
      exact hfold as a List.mem_cons_self fun b hb => List.mem_cons_of_mem _ hb

end MaxBy

/-! ## Question or choice -/

section Question

variable (hash : ContextHash) (m : DisambiguationMemory) {schema : IntentSchema}

/-- A learned choice leads to a candidate where there is one, and to no question. -/
theorem choice_of_learned
    (h : DisambiguationMemory.contextHash hash schema ∈ m.learnedChoices)
    (hcandidates : schema.candidateActions ≠ []) :
    (m.tryAutoResolve hash schema).isSome = true ∧ m.selectQuestion hash schema = none := by
  constructor
  · obtain ⟨target, htarget⟩ := Option.isSome_iff_exists.mp (AList.lookup_isSome.mpr h)
    obtain ⟨c, cs, hcons⟩ := List.exists_cons_of_ne_nil hcandidates
    rw [DisambiguationMemory.tryAutoResolve, htarget, hcons]
    show (Option.map _ (Option.or _ (some c))).isSome = true
    rw [Option.isSome_map, Option.isSome_or]
    exact Bool.or_true _
  · unfold DisambiguationMemory.selectQuestion
    split_ifs
    · rfl
    · rfl

/-- With one candidate there is no question, and nothing to tell candidates apart by. -/
theorem classifyDifference_of_short {candidates : List CandidateAction}
    (h : candidates.length < 2) : classifyDifference candidates = .nameOnly := by
  unfold classifyDifference
  split
  · next first second rest heq =>
      have hlength := congrArg List.length heq
      rw [List.length_mergeSort, List.length_map, List.length_cons, List.length_cons] at hlength
      omega
  · rfl

/-- Without a learned choice, the two ask about the same difference. -/
theorem choice_of_not_learned
    (h : DisambiguationMemory.contextHash hash schema ∉ m.learnedChoices)
    (hcandidates : schema.candidateActions ≠ []) :
    ((m.tryAutoResolve hash schema).isSome = true ↔
      classifyDifference schema.candidateActions = .recency) ∧
    ((m.selectQuestion hash schema).isSome = true ↔ 2 ≤ schema.candidateActions.length ∧
      classifyDifference schema.candidateActions ≠ .recency) := by
  constructor
  · rw [DisambiguationMemory.tryAutoResolve, AList.lookup_eq_none.mpr h]
    cases classifyDifference schema.candidateActions with
    | recency =>
        refine iff_of_true ?_ rfl
        show (Option.map _ (mostRecent _)).isSome = true
        rw [Option.isSome_map]
        exact isSome_maxBy.mpr hcandidates
    | domain => exact iff_of_false Bool.false_ne_true nofun
    | completionState => exact iff_of_false Bool.false_ne_true nofun
    | nameOnly => exact iff_of_false Bool.false_ne_true nofun
  · unfold DisambiguationMemory.selectQuestion
    rw [if_neg h]
    split_ifs with hshort
    · exact iff_of_false Bool.false_ne_true fun hlong => absurd hlong.1 (not_le.mpr hshort)
    · have hlong := not_lt.mp hshort
      cases classifyDifference schema.candidateActions with
      | recency => exact iff_of_false Bool.false_ne_true fun hother => hother.2 rfl
      | domain => exact iff_of_true rfl ⟨hlong, nofun⟩
      | completionState => exact iff_of_true rfl ⟨hlong, nofun⟩
      | nameOnly => exact iff_of_true rfl ⟨hlong, nofun⟩

/-- Where there are candidates, exactly one of question and choice is given when there are two
of them or a choice was learned. -/
theorem question_xor_choice_iff (hcandidates : schema.candidateActions ≠ []) :
    Xor ((m.selectQuestion hash schema).isSome = true)
        ((m.tryAutoResolve hash schema).isSome = true) ↔
      2 ≤ schema.candidateActions.length ∨
        DisambiguationMemory.contextHash hash schema ∈ m.learnedChoices := by
  by_cases hlearned : DisambiguationMemory.contextHash hash schema ∈ m.learnedChoices
  · obtain ⟨hchoice, hquestion⟩ := choice_of_learned hash m hlearned hcandidates
    refine iff_of_true (.inr ⟨hchoice, ?_⟩) (.inr hlearned)
    rw [hquestion]
    exact Bool.false_ne_true
  · obtain ⟨hchoice, hquestion⟩ := choice_of_not_learned hash m hlearned hcandidates
    rw [hchoice, hquestion]
    rcases lt_or_ge schema.candidateActions.length 2 with hshort | hlong
    · have hname := classifyDifference_of_short hshort
      refine iff_of_false ?_ (not_or.mpr ⟨not_le.mpr hshort, hlearned⟩)
      rintro (⟨⟨hlong, -⟩, -⟩ | ⟨hrecency, -⟩)
      · exact absurd hlong (not_le.mpr hshort)
      · rw [hname] at hrecency
        cases hrecency
    · refine iff_of_true ?_ (.inl hlong)
      by_cases hrecency : classifyDifference schema.candidateActions = .recency
      · exact .inr ⟨hrecency, fun hother => hother.2 hrecency⟩
      · exact .inl ⟨⟨hlong, hrecency⟩, hrecency⟩

end Question

/-- An intent to open a file, the only candidate. -/
def onlyFile : IntentSchema :=
  { awaitInputForEmpty .nil "open a.txt" session with
    goal := "open_file", candidateActions := [⟨"open_files", "a.txt", 0.9, 0.5⟩] }

theorem question_xor_choice_iff_remembered :
    Xor ((remembered.selectQuestion (fun _ _ _ => 0) onlyFile).isSome = true)
      ((remembered.tryAutoResolve (fun _ _ _ => 0) onlyFile).isSome = true) :=
  (question_xor_choice_iff _ _ (List.cons_ne_nil _ _)).mpr
    (.inr (AList.mem_insert _ |>.mpr (.inl rfl)))

/-- The only candidate, and nothing learned: no question, and no choice. -/
theorem not_question_xor_choice : ¬ ∀ (hash : ContextHash) (m : DisambiguationMemory)
    (schema : IntentSchema), schema.candidateActions ≠ [] →
    Xor ((m.selectQuestion hash schema).isSome = true)
      ((m.tryAutoResolve hash schema).isSome = true) := by
  intro h
  have hcandidates : onlyFile.candidateActions ≠ [] := List.cons_ne_nil _ _
  have hshort : onlyFile.candidateActions.length < 2 := Nat.one_lt_two
  obtain ⟨hchoice, hquestion⟩ :=
    choice_of_not_learned (fun _ _ _ => 0) ⟨[], ∅⟩ (AList.notMem_empty _) hcandidates
  rcases h (fun _ _ _ => 0) ⟨[], ∅⟩ onlyFile hcandidates with ⟨hasked, -⟩ | ⟨hchosen, -⟩
  · exact absurd (hquestion.mp hasked).1 (not_le.mpr hshort)
  · have hrecency := hchoice.mp hchosen
    rw [classifyDifference_of_short hshort] at hrecency
    cases hrecency

/-! ## The choice by the user's words -/

/-- The words of a candidate's short name that occur in the response. -/
def sharedWords (response : String) (c : CandidateAction) : List String :=
  (splitWhitespace (Text.toLowercase (shortName c.target))).filter
    (Text.contains (Text.toLowercase response))

/-- Some word of the candidate's short name occurs in the response. -/
def named (response : String) (c : CandidateAction) : Bool :=
  (splitWhitespace (Text.toLowercase (shortName c.target))).any
    (Text.contains (Text.toLowercase response))

/-- The candidate that alone is named, or where none is, one of maximal confidence. -/
def Documented (candidates : List CandidateAction) (response : String) (c : CandidateAction) :
    Prop :=
  (∀ only, candidates.filter (named response) = [only] → c = only) ∧
    (candidates.filter (named response) = [] →
      c ∈ candidates ∧ ∀ d ∈ candidates, d.confidence ≤ c.confidence)

section Words

variable {candidates : List CandidateAction} {response : String} {c : CandidateAction}

theorem named_iff : named response c = true ↔ sharedWords response c ≠ [] := by
  rw [named, sharedWords, List.any_eq_true, Ne, List.filter_eq_nil_iff]
  push Not
  rfl

theorem matchResponse_eq : matchResponse candidates response =
    (maxBy (fun a b => decide ((sharedWords response b).length < (sharedWords response a).length))
      candidates).filter fun c => sharedWords response c ≠ [] := rfl

/-- What is selected by the response is named in it. -/
theorem named_of_matchResponse (h : matchResponse candidates response = some c) :
    c ∈ candidates.filter (named response) := by
  obtain ⟨-, hshared⟩ := Option.filter_eq_some_iff.mp h
  exact List.mem_filter.mpr ⟨matchResponse_mem h, named_iff.mpr (of_decide_eq_true hshared)⟩

/-- Where a candidate is named, one is selected by the response. -/
theorem exists_matchResponse (hc : c ∈ candidates) (hnamed : named response c = true) :
    ∃ best, matchResponse candidates response = some best := by
  have hsome : (maxBy (fun a b => decide ((sharedWords response b).length <
      (sharedWords response a).length)) candidates).isSome = true :=
    isSome_maxBy.mpr (List.ne_nil_of_mem hc)
  obtain ⟨best, hbest⟩ := Option.isSome_iff_exists.mp hsome
  refine ⟨best, ?_⟩
  have hmost := maxBy_max (fun c => (sharedWords response c).length)
    (fun a _ b _ => decide_eq_true_iff) hbest c hc
  have hpos := List.length_pos_iff.mpr (named_iff.mp hnamed)
  rw [matchResponse_eq, hbest]
  exact Option.filter_eq_some_iff.mpr
    ⟨rfl, decide_eq_true (List.length_pos_iff.mp (hpos.trans_le hmost))⟩

/-- Scores from zero to one are compared right, so that nothing is more confident. -/
theorem mostConfident_max (hunit : ∀ d ∈ candidates, 0 ≤ d.confidence ∧ d.confidence ≤ 1)
    (h : mostConfident candidates = some c) : ∀ d ∈ candidates, d.confidence ≤ c.confidence := by
  intro d hd
  refine (le_iff_rank (hunit d hd) (hunit c (maxBy_mem h))).mpr ?_
  refine maxBy_max (fun c => rank c.confidence.toModel.unpack) ?_ h d hd
  intro a ha b hb
  exact decide_eq_true_iff.trans (lt_iff_rank (hunit b hb) (hunit a ha))

/-- With a candidate at hand, the choice is the documented one. -/
theorem exists_documented (hunit : ∀ d ∈ candidates, 0 ≤ d.confidence ∧ d.confidence ≤ 1)
    (h : candidates ≠ []) : ∃ c, (matchResponse candidates response).or
      (mostConfident candidates) = some c ∧ Documented candidates response c := by
  cases hmatch : matchResponse candidates response with
  | some c =>
      have hnamed := named_of_matchResponse hmatch
      refine ⟨c, rfl, ?_, ?_⟩
      · intro only honly
        rw [honly] at hnamed
        exact List.mem_singleton.mp hnamed
      · intro hnone
        rw [hnone] at hnamed
        cases hnamed
  | none =>
      obtain ⟨c, hc⟩ := Option.isSome_iff_exists.mp (isSome_maxBy.mpr h)
      refine ⟨c, hc, ?_, fun _ => ⟨maxBy_mem hc, mostConfident_max hunit hc⟩⟩
      intro only honly
      have hmem : only ∈ candidates.filter (named response) := honly ▸ List.mem_cons_self
      obtain ⟨honly, hnamed⟩ := List.mem_filter.mp hmem
      obtain ⟨best, hbest⟩ := exists_matchResponse honly hnamed
      cases hmatch.symm.trans hbest

end Words

/-! ## What the parser produces -/

section Parsed

variable {R : Reader} {keyHash : KeyHash}

theorem unit_of_read {fresh : Uuid} {output : String} {r : ParseRequest} {schema : IntentSchema}
    (h : readAnswer R fresh output r = .ok schema) :
    ∀ c ∈ schema.candidateActions, 0 ≤ c.confidence ∧ c.confidence ≤ 1 := by
  unfold readAnswer parseLlmOutputWithContext parseLlmOutputWithInjection at h
  split at h
  · cases h
  · intro c hc
    have haccepted := (readIntent_ok_iff R).mp h
    refine scores_of_accepted haccepted _ (List.mem_append_right _ ?_)
    exact List.mem_flatMap.mpr ⟨c, hc, List.mem_cons_self⟩

/-- Whatever was called before, the confidences of what is parsed are from zero to one. -/
theorem unit_of_parse {calls : List ParserCall} {r : ParseRequest} {schema : IntentSchema}
    {cached : Bool}
    (h : (parse R keyHash (Run.after (parserStep R keyHash) .new calls) r).1 =
      .ok ⟨schema, cached⟩) :
    ∀ c ∈ schema.candidateActions, 0 ≤ c.confidence ∧ c.confidence ≤ 1 := by
  have hcase : ParseCase R keyHash (Run.after (parserStep R keyHash) .new calls) r
      (parse R keyHash (Run.after (parserStep R keyHash) .new calls) r) := parse_case _ r
  generalize parse R keyHash (Run.after (parserStep R keyHash) .new calls) r = result at h hcase
  cases hcase with
  | failed e => cases h
  | blank hblank =>
      cases h
      intro c hc
      cases hc
  | hit e he =>
      cases h
      obtain ⟨first, output, -, -, -, hread⟩ := stems_calls calls _ e he
      show ∀ c ∈ e.schema.candidateActions, _
      exact unit_of_read hread
  | read output schema hanswer hread =>
      cases h
      exact unit_of_read hread

/-- What `resolve` selects, where it does not panic. -/
theorem resolve_selected (hash : ContextHash) (m : DisambiguationMemory) (now : String)
    (schema : IntentSchema) (response : String) :
    (m.resolve hash now schema response).map (·.1.selectedAction) =
      (matchResponse schema.candidateActions response).or
        (mostConfident schema.candidateActions) := by
  unfold DisambiguationMemory.resolve
  cases (matchResponse schema.candidateActions response).or
    (mostConfident schema.candidateActions) with
  | none => rfl
  | some c => rfl

/-- Of what the parser produces after any calls, every memory resolves every response to the
documented candidate exactly when there are candidates; else it panics. -/
theorem resolve_documented_iff (hash : ContextHash) (m : DisambiguationMemory)
    (calls : List ParserCall) (r : ParseRequest) (schema : IntentSchema) (cached : Bool)
    (h : (parse R keyHash (Run.after (parserStep R keyHash) .new calls) r).1 =
      .ok ⟨schema, cached⟩) (now response : String) :
    (∃ c, (m.resolve hash now schema response).map (·.1.selectedAction) = some c ∧
      Documented schema.candidateActions response c) ↔ schema.candidateActions ≠ [] := by
  rw [resolve_selected]
  constructor
  · rintro ⟨c, hc, -⟩ hnone
    rw [hnone] at hc
    cases hc
  · exact exists_documented (unit_of_parse h)

end Parsed

theorem resolve_documented_iff_openFile : ∃ s c,
    readAnswer Reader.sample .nil openFile.print (askOpen "12:00" 0) = .ok s ∧
    (remembered.resolve (fun _ _ _ => 0) "12:00" s "the first one").map (·.1.selectedAction) =
      some c ∧ Documented s.candidateActions "the first one" c := by
  obtain ⟨s, hs, hcandidates, hparse⟩ := exists_askOpen "12:00"
  have hsome : s.candidateActions ≠ [] := by
    intro hnone
    rw [hnone] at hcandidates
    cases hcandidates
  obtain ⟨c, hc⟩ := (resolve_documented_iff (fun _ _ _ => 0) remembered _ _ _ _ hparse "12:00"
    "the first one").mpr hsome
  exact ⟨s, c, hs, hc⟩

/-- Nothing was said, and there is nothing to choose from. -/
theorem not_resolve_documented : ¬ ∀ (R : Reader) (keyHash : KeyHash) (hash : ContextHash)
    (m : DisambiguationMemory) (calls : List ParserCall) (r : ParseRequest)
    (schema : IntentSchema) (cached : Bool),
    (parse R keyHash (Run.after (parserStep R keyHash) .new calls) r).1 = .ok ⟨schema, cached⟩ →
    ∀ now response, ∃ c, (m.resolve hash now schema response).map (·.1.selectedAction) = some c ∧
      Documented schema.candidateActions response c := by
  intro h
  have hblank : (parse Reader.sample (fun _ _ _ _ => 0) .new
      { askOpen "12:00" 0 with rawInput := "" }).1 =
        .ok ⟨awaitInputForEmpty .nil "" session, false⟩ := rfl
  obtain ⟨c, hc, -⟩ := h _ _ (fun _ _ _ => 0) remembered [] _ _ _ hblank "12:00" "the first one"
  cases hc

end IntentEngine

/-
# `Cognos.IntentEngine.LearnedChoice` — what the engine makes of a choice

A choice is remembered as a target, under a hash of the goal, the domain and the last active
domain.  In a later schema of the same context it stands for the first candidate with that
target, and where there is none for the first candidate (`StandsFor`).

    lookup_after           what is learned is the target of the last choice under the hash
    selectQuestion_after   a context with a choice is never asked about again
    remembers_iff          the choice is kept exactly when no candidate ahead of it has its
                           target, or where it is not offered one chosen before leads (`KeptFor`)
-/
import Mathlib
import Cognos.IntentEngine.Disambiguation
import Cognos.Lib.Run

namespace IntentEngine

/-! ## Choices -/

/-- What a choice is remembered for. -/
structure Context where
  goal : String
  domain : Option String
  lastActiveDomain : Option String
  deriving DecidableEq

def IntentSchema.context (schema : IntentSchema) : Context :=
  ⟨schema.goal, schema.domain, schema.sessionContext.lastActiveDomain⟩

/-- The same action on the same target. -/
def CandidateAction.Same (c d : CandidateAction) : Prop := c.action = d.action ∧ c.target = d.target

instance (c d : CandidateAction) : Decidable (c.Same d) := by
  unfold CandidateAction.Same
  infer_instance

/-- A call of `resolve`. -/
structure Answer where
  now : String
  schema : IntentSchema
  response : String

/-- The action a call of `resolve` selects. -/
def Answer.choice (a : Answer) : Option CandidateAction :=
  (matchResponse a.schema.candidateActions a.response).or (mostConfident a.schema.candidateActions)

namespace DisambiguationMemory

variable (hash : ContextHash)

/-- Nothing is learned yet. -/
def empty : DisambiguationMemory := ⟨[], ∅⟩

/-- The memory after a call of `resolve`; without candidates the call panics. -/
def learn (m : DisambiguationMemory) (a : Answer) : DisambiguationMemory :=
  match m.resolve hash a.now a.schema a.response with
  | some (_, next) => next
  | none => m

end DisambiguationMemory

open DisambiguationMemory

/-- The choices of a history, each with its context, the first one first. -/
def choices (history : List Answer) : List (Context × CandidateAction) :=
  history.filterMap fun a => a.choice.map fun c => (a.schema.context, c)

/-- The choices made in this context. -/
def chosen (context : Context) (history : List Answer) : List CandidateAction :=
  ((choices history).filter fun p => p.1 = context).map (·.2)

variable (hash : ContextHash)

def Context.key (context : Context) : UInt64 :=
  hash context.goal context.domain context.lastActiveDomain

/-- The choices made under this hash, in whatever context. -/
def chosenUnder (key : UInt64) (history : List Answer) : List CandidateAction :=
  ((choices history).filter fun p => p.1.key hash = key).map (·.2)

/-- What a learned target stands for among candidates. -/
def StandsFor (candidates : List CandidateAction) (target : String) (d : CandidateAction) : Prop :=
  (candidates.find? fun c => c.target == target).or candidates.head? = some d

/-- The choice is kept for this schema: there is no question, the chosen action is taken where
it is offered, and nothing is taken that was not chosen in this context. -/
def Remembers (history : List Answer) (schema : IntentSchema) : Prop :=
  let m := Run.after (learn hash) empty history
  ∀ c, (chosen schema.context history).getLast? = some c →
    m.selectQuestion hash schema = none ∧
    ((∃ d ∈ schema.candidateActions, d.Same c) →
      ∃ r, m.tryAutoResolve hash schema = some r ∧ r.selectedAction.Same c) ∧
    ∀ r, m.tryAutoResolve hash schema = some r →
      ∃ c' ∈ chosen schema.context history, r.selectedAction.Same c'

/-! ## What is learned -/

theorem resolve_eq (m : DisambiguationMemory) (a : Answer) :
    m.resolve hash a.now a.schema a.response = a.choice.map fun c =>
      (⟨a.schema.intentId, c, true, a.schema.disambiguationQuestion, some a.response⟩,
        { records := m.records ++ [⟨a.schema.context.key hash, a.schema.goal, a.schema.domain,
            a.schema.disambiguationQuestion, c.target, a.now⟩]
          learnedChoices := m.learnedChoices.insert (a.schema.context.key hash) c.target }) := by
  show a.choice.bind _ = _
  cases a.choice with
  | none => rfl
  | some c => rfl

theorem learnedChoices_learn (m : DisambiguationMemory) (a : Answer) :
    (m.learn hash a).learnedChoices = match a.choice with
      | some c => m.learnedChoices.insert (a.schema.context.key hash) c.target
      | none => m.learnedChoices := by
  unfold learn
  rw [resolve_eq]
  cases a.choice with
  | none => rfl
  | some c => rfl

theorem choices_concat (history : List Answer) (a : Answer) :
    choices (history ++ [a]) =
      choices history ++ (a.choice.map fun c => (a.schema.context, c)).toList := by
  rw [choices, List.filterMap_append]
  cases h : a.choice with
  | none => simp [choices, h]
  | some c => simp [choices, h]

/-- What is learned is the target of the last choice under the hash. -/
theorem lookup_after (history : List Answer) (key : UInt64) :
    (Run.after (learn hash) empty history).learnedChoices.lookup key =
      (chosenUnder hash key history).getLast?.map (·.target) := by
  induction history using List.reverseRecOn with
  | nil => rfl
  | append_singleton history a ih =>
      rw [Run.after_append]
      show ((Run.after (learn hash) empty history).learn hash a).learnedChoices.lookup key = _
      rw [learnedChoices_learn, chosenUnder, choices_concat]
      cases hchoice : a.choice with
      | none =>
          simp only [Option.map_none, Option.toList_none, List.append_nil]
          exact ih
      | some c =>
          simp only [Option.map_some, Option.toList_some, List.filter_append, List.map_append]
          by_cases hkey : a.schema.context.key hash = key
          · subst hkey
            rw [AList.lookup_insert, List.filter_singleton]
            simp
          · rw [AList.lookup_insert_ne (Ne.symm hkey), ih, List.filter_singleton]
            simp [hkey, chosenUnder]

/-- A choice of the context is a choice under its hash. -/
theorem chosen_subset (context : Context) (history : List Answer) :
    chosen context history ⊆ chosenUnder hash (context.key hash) history := by
  intro c hc
  obtain ⟨p, hp, rfl⟩ := List.mem_map.mp hc
  obtain ⟨hmem, hcontext⟩ := List.mem_filter.mp hp
  refine List.mem_map_of_mem (List.mem_filter.mpr ⟨hmem, decide_eq_true ?_⟩)
  rw [of_decide_eq_true hcontext]

/-- Under a hash with a choice, something is learned. -/
theorem exists_learned {context : Context} {history : List Answer} {c : CandidateAction}
    (hc : c ∈ chosen context history) :
    ∃ learned, (chosenUnder hash (context.key hash) history).getLast? = some learned := by
  have hne := List.ne_nil_of_mem (chosen_subset hash context history hc)
  exact ⟨_, List.getLast?_eq_some_getLast hne⟩

/-! ## What comes of it -/

variable {hash} {history : List Answer} {schema : IntentSchema} {c : CandidateAction}

/-- A context with a choice is never asked about again. -/
theorem selectQuestion_after (hc : c ∈ chosen schema.context history) :
    (Run.after (learn hash) empty history).selectQuestion hash schema = none := by
  obtain ⟨learned, hlearned⟩ := exists_learned hash hc
  have hlookup := lookup_after hash history (schema.context.key hash)
  rw [hlearned] at hlookup
  have hmem : DisambiguationMemory.contextHash hash schema ∈
      (Run.after (learn hash) empty history).learnedChoices := by
    rw [← AList.lookup_isSome]
    show ((Run.after (learn hash) empty history).learnedChoices.lookup
      (schema.context.key hash)).isSome = true
    rw [hlookup]
    rfl
  unfold selectQuestion
  split_ifs
  · rfl
  · rfl

/-- A learned target is taken for what it stands for. -/
theorem tryAutoResolve_after {learned : CandidateAction}
    (hlearned : (chosenUnder hash (schema.context.key hash) history).getLast? = some learned)
    {r : ResolvedIntent} :
    (Run.after (learn hash) empty history).tryAutoResolve hash schema = some r ↔
      ∃ d, StandsFor schema.candidateActions learned.target d ∧
        r = ⟨schema.intentId, d, false, none, none⟩ := by
  have hlookup := lookup_after hash history (schema.context.key hash)
  rw [hlearned] at hlookup
  unfold tryAutoResolve
  rw [show (Run.after (learn hash) empty history).learnedChoices.lookup
    (DisambiguationMemory.contextHash hash schema) = some learned.target from hlookup]
  rw [Option.map_eq_some_iff]
  constructor
  · rintro ⟨d, hd, rfl⟩
    exact ⟨d, hd, rfl⟩
  · rintro ⟨d, hd, rfl⟩
    exact ⟨d, hd, rfl⟩

/-- The candidates with which a choice `c` is kept, where `target` was learned last under the
hash of the context and `before` were chosen in the context. -/
inductive KeptFor (c : CandidateAction) (target : String) (before : List CandidateAction) :
    List CandidateAction → Prop
  /-- Nothing is offered. -/
  | none : KeptFor c target before []
  /-- The chosen action is offered, and what is ahead of it has other targets. -/
  | ahead {ahead rest : List CandidateAction} {d : CandidateAction} : target = c.target →
      d.Same c → (∀ e ∈ ahead, e.target ≠ c.target) → KeptFor c target before (ahead ++ d :: rest)
  /-- No candidate has the target, and the chosen action comes first. -/
  | first {rest : List CandidateAction} {d : CandidateAction} : d.Same c →
      (∀ e ∈ d :: rest, e.target ≠ target) → KeptFor c target before (d :: rest)
  /-- The chosen action is not offered, and the foremost on the target was chosen before. -/
  | earlier {ahead rest : List CandidateAction} {d : CandidateAction} :
      (∀ e ∈ ahead ++ d :: rest, ¬ e.Same c) → d.target = target →
      (∀ e ∈ ahead, e.target ≠ target) → (∃ c' ∈ before, d.Same c') →
      KeptFor c target before (ahead ++ d :: rest)
  /-- The chosen action is not offered, nor its target, and the first was chosen before. -/
  | earlierFirst {rest : List CandidateAction} {d : CandidateAction} :
      (∀ e ∈ d :: rest, ¬ e.Same c) → (∀ e ∈ d :: rest, e.target ≠ target) →
      (∃ c' ∈ before, d.Same c') → KeptFor c target before (d :: rest)

/-- The candidates keep the last choice of their context. -/
def Kept (hash : ContextHash) (history : List Answer) (schema : IntentSchema) : Prop :=
  ∀ c, (chosen schema.context history).getLast? = some c →
    ∀ learned, (chosenUnder hash (schema.context.key hash) history).getLast? = some learned →
      KeptFor c learned.target (chosen schema.context history) schema.candidateActions

/-- A target stands for the foremost candidate that has it, or else for the first one. -/
theorem standsFor_iff {candidates : List CandidateAction} {target : String}
    {d : CandidateAction} :
    StandsFor candidates target d ↔
      (∃ ahead rest, candidates = ahead ++ d :: rest ∧ d.target = target ∧
        ∀ e ∈ ahead, e.target ≠ target) ∨
      ∃ rest, candidates = d :: rest ∧ ∀ e ∈ candidates, e.target ≠ target := by
  unfold StandsFor
  cases hfind : candidates.find? fun c => c.target == target with
  | some d' =>
      obtain ⟨htarget, ahead, rest, hsplit, hahead⟩ := List.find?_eq_some_iff_append.mp hfind
      have htarget : d'.target = target := beq_iff_eq.mp htarget
      have hothers : ∀ e ∈ ahead, e.target ≠ target := fun e he => by simpa using hahead e he
      rw [Option.some_or, Option.some.injEq]
      constructor
      · rintro rfl
        exact Or.inl ⟨ahead, rest, hsplit, htarget, hothers⟩
      · rintro (⟨ahead', rest', hsplit', htarget', hothers'⟩ | ⟨rest', -, hnone⟩)
        · have hfind' : candidates.find? (fun c => c.target == target) = some d :=
            List.find?_eq_some_iff_append.mpr ⟨beq_iff_eq.mpr htarget', ahead', rest', hsplit',
              fun e he => by simpa using hothers' e he⟩
          exact Option.some.inj (hfind.symm.trans hfind')
        · have hmem : d' ∈ candidates := List.mem_of_find?_eq_some hfind
          exact absurd htarget (hnone d' hmem)
  | none =>
      have hnone : ∀ e ∈ candidates, e.target ≠ target := fun e he => by
        simpa using List.find?_eq_none.mp hfind e he
      rw [Option.none_or]
      constructor
      · intro hhead
        cases candidates with
        | nil => cases hhead
        | cons e rest =>
            cases hhead
            exact Or.inr ⟨rest, rfl, hnone⟩
      · rintro (⟨ahead, rest, rfl, htarget, -⟩ | ⟨rest, rfl, -⟩)
        · exact absurd htarget (hnone d (List.mem_append_right _ List.mem_cons_self))
        · rfl

theorem exists_standsFor {candidates : List CandidateAction} (h : candidates ≠ [])
    (target : String) : ∃ d, StandsFor candidates target d := by
  unfold StandsFor
  cases candidates with
  | nil => exact absurd rfl h
  | cons e es =>
      cases (e :: es).find? fun c => c.target == target with
      | none => exact ⟨e, rfl⟩
      | some d => exact ⟨d, rfl⟩

/-- The two ways a candidate list keeps a choice, as what its target stands for. -/
theorem keptFor_iff {c : CandidateAction} {target : String}
    {before candidates : List CandidateAction} :
    KeptFor c target before candidates ↔ ∀ d, StandsFor candidates target d →
      d.Same c ∨ (∀ e ∈ candidates, ¬ e.Same c) ∧ ∃ c' ∈ before, d.Same c' := by
  constructor
  · intro h d hd
    have hunique : ∀ {d'}, StandsFor candidates target d' → d' = d := fun hd' =>
      Option.some.inj (hd'.symm.trans hd)
    cases h with
    | none => cases hd
    | @ahead ahead rest d' htarget hsame hahead =>
        obtain rfl := hunique (standsFor_iff.mpr
          (Or.inl ⟨ahead, rest, rfl, hsame.2.trans htarget.symm, htarget ▸ hahead⟩))
        exact Or.inl hsame
    | @first rest d' hsame hnone =>
        obtain rfl := hunique (standsFor_iff.mpr (Or.inr ⟨rest, rfl, hnone⟩))
        exact Or.inl hsame
    | @earlier ahead rest d' hoffered htarget hahead hbefore =>
        obtain rfl := hunique (standsFor_iff.mpr (Or.inl ⟨ahead, rest, rfl, htarget, hahead⟩))
        exact Or.inr ⟨hoffered, hbefore⟩
    | @earlierFirst rest d' hoffered hnone hbefore =>
        obtain rfl := hunique (standsFor_iff.mpr (Or.inr ⟨rest, rfl, hnone⟩))
        exact Or.inr ⟨hoffered, hbefore⟩
  · intro h
    by_cases hne : candidates = []
    · subst hne
      exact .none
    obtain ⟨d, hd⟩ := exists_standsFor hne target
    rcases h d hd with hsame | ⟨hoffered, hbefore⟩
    · rcases standsFor_iff.mp hd with ⟨ahead, rest, rfl, htarget, hahead⟩ | ⟨rest, rfl, hnone⟩
      · have hchosen : target = c.target := htarget.symm.trans hsame.2
        exact .ahead hchosen hsame (hchosen ▸ hahead)
      · exact .first hsame hnone
    · rcases standsFor_iff.mp hd with ⟨ahead, rest, rfl, htarget, hahead⟩ | ⟨rest, rfl, hnone⟩
      · exact .earlier hoffered htarget hahead hbefore
      · exact .earlierFirst hoffered hnone hbefore

theorem remembers_iff (hash : ContextHash) (history : List Answer) (schema : IntentSchema) :
    Remembers hash history schema ↔ Kept hash history schema := by
  constructor
  · intro h c hc learned hlearned
    obtain ⟨-, htaken, honly⟩ := h c hc
    refine keptFor_iff.mpr fun d hd => ?_
    have hresolved := (tryAutoResolve_after hlearned).mpr ⟨d, hd, rfl⟩
    by_cases hoffered : ∃ e ∈ schema.candidateActions, e.Same c
    · obtain ⟨r, hr, hsame⟩ := htaken hoffered
      obtain rfl := Option.some.inj (hr.symm.trans hresolved)
      exact Or.inl hsame
    · push Not at hoffered
      exact Or.inr ⟨hoffered, honly _ hresolved⟩
  · intro h c hc
    have hmem : c ∈ chosen schema.context history := List.mem_of_getLast? hc
    obtain ⟨learned, hlearned⟩ := exists_learned hash hmem
    have hkept := keptFor_iff.mp (h c hc learned hlearned)
    refine ⟨selectQuestion_after hmem, ?_, ?_⟩
    · rintro ⟨e, he, hsame⟩
      obtain ⟨d, hd⟩ := exists_standsFor (List.ne_nil_of_mem he) learned.target
      refine ⟨_, (tryAutoResolve_after hlearned).mpr ⟨d, hd, rfl⟩, ?_⟩
      rcases hkept d hd with hd | ⟨hnone, -⟩
      · exact hd
      · exact absurd hsame (hnone e he)
    · intro r hr
      obtain ⟨d, hd, rfl⟩ := (tryAutoResolve_after hlearned).mp hr
      rcases hkept d hd with hd | ⟨-, hbefore⟩
      · exact ⟨c, hmem, hd⟩
      · exact hbefore

/-! ## A choice that is lost -/

/-- A schema without a domain that offers these actions. -/
def offering (candidates : List (String × String)) : IntentSchema where
  intentId := Uuid.numbered 1
  rawInput := "open a"
  goal := "open_file"
  domain := none
  confidence := 0.9
  ambiguityScore := 0.5
  riskEstimate := 0.1
  requiredContext := []
  candidateActions := candidates.map fun p => ⟨p.1, p.2, 0.9, 0.5⟩
  disambiguationRequired := true
  disambiguationQuestion := some "Which one?"
  sessionContext := ⟨none, [], "12:00", none⟩
  halPreScore := 0.1
  escalateToCloud := false
  source := none

def openA : Answer := ⟨"2026-01-01T12:00:00Z", offering [("open_file", "a")], ""⟩

theorem choices_openA :
    choices [openA] = [(openA.schema.context, ⟨"open_file", "a", 0.9, 0.5⟩)] := rfl

theorem learned_openA {key : UInt64} {learned : CandidateAction}
    (h : (chosenUnder hash key [openA]).getLast? = some learned) :
    learned = ⟨"open_file", "a", 0.9, 0.5⟩ := by
  obtain ⟨p, hp, rfl⟩ := List.mem_map.mp (List.mem_of_getLast? h)
  have hmem := (List.mem_filter.mp hp).1
  rw [choices_openA, List.mem_singleton] at hmem
  rw [hmem]

/-- After "open a" was chosen, a schema in which "a" stands for something else. -/
theorem not_remembers_openA (hash : ContextHash) {schema : IntentSchema} {d : CandidateAction}
    (hcontext : schema.context = openA.schema.context)
    (hd : StandsFor schema.candidateActions "a" d)
    (hother : ¬ d.Same ⟨"open_file", "a", 0.9, 0.5⟩) : ¬ Remembers hash [openA] schema := by
  intro hremembers
  have hchosen : chosen schema.context [openA] = [⟨"open_file", "a", 0.9, 0.5⟩] := by
    rw [hcontext]
    rfl
  obtain ⟨-, -, honly⟩ := hremembers ⟨"open_file", "a", 0.9, 0.5⟩ (by rw [hchosen]; rfl)
  obtain ⟨learned, hlearned⟩ := exists_learned hash
    (show (⟨"open_file", "a", 0.9, 0.5⟩ : CandidateAction) ∈ chosen schema.context [openA] by
      rw [hchosen]
      exact List.mem_singleton_self _)
  have htarget : learned.target = "a" := by rw [learned_openA hlearned]
  obtain ⟨c', hc', hsame⟩ := honly _ ((tryAutoResolve_after hlearned).mpr
    ⟨d, by rw [htarget]; exact hd, rfl⟩)
  rw [hchosen, List.mem_singleton] at hc'
  exact hother (hc' ▸ hsame)

/-- Where "a" is offered to be deleted or to be opened, it is deleted; and where only "b" is
offered, it is opened. -/
theorem not_remembers :
    (∀ hash, ¬ Remembers hash [openA] (offering [("delete_file", "a"), ("open_file", "a")])) ∧
      ∀ hash, ¬ Remembers hash [openA] (offering [("open_file", "b")]) := by
  constructor
  · intro hash
    refine @not_remembers_openA hash _ ⟨"delete_file", "a", 0.9, 0.5⟩ rfl rfl ?_
    exact fun h => absurd h.1 (by decide)
  · intro hash
    refine @not_remembers_openA hash _ ⟨"open_file", "b", 0.9, 0.5⟩ rfl rfl ?_
    exact fun h => absurd h.2 (by decide)

end IntentEngine

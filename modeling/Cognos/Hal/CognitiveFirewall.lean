/-
# `Cognos.Hal.CognitiveFirewall` — the last filter on what the preloader shows

After the restraint model and the autonomy controller have approved a prediction, the firewall
looks once more at its content: words that mark intimate content, private domains, domains the
user has not opted into, and the hour.  Its lists are its own, kept beside those of the
restraint model; each word of the model's list has one of the firewall's in it.

    filter_eq_pass                 the tests a prediction must pass
    filter_blocks_of_holdsContent  what the model stops for its content, the firewall blocks
-/
import Cognos.Hal.RestraintModel
import Cognos.Lib.Run

namespace Hal

/-! ## Verdicts -/

/-- Reasons the firewall may block a prediction. -/
inductive BlockReason
  | emotionalContent
  | privateDomain
  | unrequestedDomain
  | timeInappropriate
  deriving DecidableEq, Repr

/-- The firewall's verdict; nothing gives `anonymize` yet. -/
inductive FirewallVerdict
  | pass
  | block (reason : BlockReason)
  | anonymize
  deriving DecidableEq, Repr

/-! ## The intimacy classifier -/

def defaultIntimacyLexicon : List String :=
  ["diary", "journal", "love", "relationship", "therapy", "medical", "health", "password",
    "credential", "secret", "private", "personal", "finance", "bank", "kdbx", "emotion",
    "feeling"]

/-- The substrings that mark emotional or intimate content. -/
structure IntimacyClassifier where
  lexicon : List String

namespace IntimacyClassifier

def new : IntimacyClassifier := { lexicon := defaultIntimacyLexicon }

/-- Some text of the prediction matches the lexicon, case aside. -/
def isIntimate (c : IntimacyClassifier) (prediction : ContextPrediction) : Bool :=
  let haystacks := [Text.toLowercase prediction.predictedAction, Text.toLowercase prediction.domain]
  let pathLower := prediction.filePaths.map Text.toLowercase
  c.lexicon.any fun needle =>
    haystacks.any (fun h => Text.contains h (Text.toLowercase needle)) ||
      pathLower.any (fun p => Text.contains p (Text.toLowercase needle))

theorem isIntimate_of_path {c : IntimacyClassifier} {prediction : ContextPrediction}
    {needle path : String} (hneedle : needle ∈ c.lexicon) (hpath : path ∈ prediction.filePaths)
    (h : Text.contains (Text.toLowercase path) (Text.toLowercase needle) = true) :
    c.isIntimate prediction = true := by
  refine List.any_eq_true.mpr ⟨needle, hneedle, ?_⟩
  refine Bool.or_eq_true_iff.mpr (Or.inr ?_)
  exact List.any_eq_true.mpr ⟨_, List.mem_map_of_mem hpath, h⟩

end IntimacyClassifier

/-! ## The domain filter -/

def defaultPrivateDomains : List String :=
  ["personal", "finance", "health", "private", "relationships", "therapy"]

/-- The domains the user has opted into, and those never shown. -/
structure DomainFilter where
  optedIn : Finset String
  alwaysPrivate : Finset String

namespace DomainFilter

def new : DomainFilter := { optedIn := ∅, alwaysPrivate := defaultPrivateDomains.toFinset }

def optIn (f : DomainFilter) (domain : String) : DomainFilter :=
  { f with optedIn := insert domain f.optedIn }

def optOut (f : DomainFilter) (domain : String) : DomainFilter :=
  { f with optedIn := f.optedIn.erase domain }

def isPrivate (f : DomainFilter) (domain : String) : Bool := domain ∈ f.alwaysPrivate

def isOptedIn (f : DomainFilter) (domain : String) : Bool := domain ∈ f.optedIn

end DomainFilter

/-! ## The firewall -/

structure CognitiveFirewall where
  intimacyClassifier : IntimacyClassifier
  domainFilter : DomainFilter

namespace CognitiveFirewall

def new : CognitiveFirewall := { intimacyClassifier := .new, domainFilter := .new }

/-- `CognitiveFirewall::filter`. -/
def filter (w : CognitiveFirewall) (prediction : ContextPrediction) : FirewallVerdict :=
  -- 1. emotional content
  if w.intimacyClassifier.isIntimate prediction then .block .emotionalContent
  -- 2. a private domain
  else if w.domainFilter.isPrivate prediction.domain then .block .privateDomain
  -- 3. a domain the user has not opted into
  else if !w.domainFilter.isOptedIn prediction.domain then .block .unrequestedDomain
  -- 4. late at night
  else if isLateNight prediction.timeOfDay && prediction.domain != "coding" &&
      prediction.domain != "work" then .block .timeInappropriate
  else .pass

/-- A call on the domain filter, through `domain_filter_mut`. -/
inductive FilterCall
  | optIn (domain : String)
  | optOut (domain : String)

def call (w : CognitiveFirewall) : FilterCall → CognitiveFirewall
  | .optIn domain => { w with domainFilter := w.domainFilter.optIn domain }
  | .optOut domain => { w with domainFilter := w.domainFilter.optOut domain }

/-- The firewall after the calls. -/
def afterCalls (calls : List FilterCall) : CognitiveFirewall := Run.after call new calls

/-- Opting in and out leaves the lexicon and the private domains as they were. -/
theorem afterCalls_lists (calls : List FilterCall) :
    (afterCalls calls).intimacyClassifier = .new ∧
      (afterCalls calls).domainFilter.alwaysPrivate = DomainFilter.new.alwaysPrivate := by
  refine Run.invariant_of_step call (I := fun w => w.intimacyClassifier = .new ∧
    w.domainFilter.alwaysPrivate = DomainFilter.new.alwaysPrivate) ?_ ⟨rfl, rfl⟩ calls
  intro w a hw
  cases a with
  | optIn domain => exact hw
  | optOut domain => exact hw

/-! ## The tests -/

/-- The four tests, for any firewall. -/
theorem filter_eq_pass {w : CognitiveFirewall} {prediction : ContextPrediction} :
    w.filter prediction = .pass ↔
      w.intimacyClassifier.isIntimate prediction = false ∧
      prediction.domain ∉ w.domainFilter.alwaysPrivate ∧
      prediction.domain ∈ w.domainFilter.optedIn ∧
      ¬ (isLateNight prediction.timeOfDay = true ∧ prediction.domain ∉ nightOkDomains) := by
  have hnight : (isLateNight prediction.timeOfDay && prediction.domain != "coding" &&
      prediction.domain != "work") = true ↔
      isLateNight prediction.timeOfDay = true ∧ prediction.domain ∉ nightOkDomains := by
    simp only [nightOkDomains, Bool.and_eq_true, bne_iff_ne, List.mem_cons, List.not_mem_nil,
      or_false, not_or, and_assoc]
  unfold filter
  simp only [ite_eq_iff, reduceCtorEq, and_false, false_or, and_true, hnight,
    DomainFilter.isPrivate, DomainFilter.isOptedIn, decide_eq_true_eq, Bool.not_eq_true',
    decide_eq_false_iff_not, not_not, Bool.not_eq_true]

/-- What is not passed is blocked: nothing is anonymised. -/
theorem filter_block_of_ne_pass {w : CognitiveFirewall} {prediction : ContextPrediction}
    (h : w.filter prediction ≠ .pass) : ∃ reason, w.filter prediction = .block reason := by
  revert h
  fun_cases filter w prediction with
  | case5 => exact fun h => absurd rfl h
  | _ => exact fun _ => ⟨_, rfl⟩

end CognitiveFirewall

/-! ## What the restraint model says -/

/-- The text of the model's second check. -/
def domainReason (prediction : ContextPrediction) : String :=
  "Domain '" ++ prediction.domain ++ "' is always held back (high-intimacy)"

/-- The text of its third check. -/
def pathReason (pattern : String) : String :=
  "File path contains sensitive pattern '" ++ pattern ++ "' — held back"

/-- The text of its fourth check. -/
def lateNightReason (prediction : ContextPrediction) : String :=
  "Late night (" ++ twoDigits prediction.timeOfDay.toNat ++ ":00) preload in domain '" ++
    prediction.domain ++ "' — held back"

/-- The model holds the prediction back for its domain, a file path or the hour. -/
def HoldsContent (prediction : ContextPrediction) (acceptance : DomainAcceptance) : Prop :=
  ∃ reason, shouldPreload prediction acceptance = .holdBack reason ∧
    (reason = domainReason prediction ∨
      (∃ pattern ∈ sensitivePathSubstrings, reason = pathReason pattern) ∨
      reason = lateNightReason prediction)

/-- The letter a text begins with. -/
theorem head_append {s t : String} {c : Char} (h : s.toList.head? = some c) :
    (s ++ t).toList.head? = some c := by
  rw [String.toList_append, List.head?_append, h, Option.some_or]

theorem ne_of_head {s t : String} {c d : Char} (hs : s.toList.head? = some c)
    (ht : t.toList.head? = some d) (hcd : c ≠ d) : s ≠ t := by
  rintro rfl
  exact hcd (Option.some.inj (hs.symm.trans ht))

theorem head_domainReason (prediction : ContextPrediction) :
    (domainReason prediction).toList.head? = some 'D' :=
  head_append (head_append (by decide))

theorem head_pathReason (pattern : String) : (pathReason pattern).toList.head? = some 'F' :=
  head_append (head_append (by decide))

theorem head_lateNightReason (prediction : ContextPrediction) :
    (lateNightReason prediction).toList.head? = some 'L' :=
  head_append (head_append (head_append (head_append (by decide))))

/-- A text that begins with none of the three letters is none of the three. -/
theorem not_contentReason {prediction : ContextPrediction} {reason : String} {c : Char}
    (hc : reason.toList.head? = some c) (hcs : c ∉ ['D', 'F', 'L']) :
    ¬ (reason = domainReason prediction ∨
      (∃ pattern ∈ sensitivePathSubstrings, reason = pathReason pattern) ∨
      reason = lateNightReason prediction) := by
  simp only [List.mem_cons, List.not_mem_nil, or_false, not_or] at hcs
  obtain ⟨hD, hF, hL⟩ := hcs
  rintro (h | ⟨pattern, -, h⟩ | h)
  · exact ne_of_head hc (head_domainReason prediction) hD h
  · exact ne_of_head hc (head_pathReason pattern) hF h
  · exact ne_of_head hc (head_lateNightReason prediction) hL h

/-- The sixth check's text is not one of the three either. -/
theorem lockedReason_ne (prediction : ContextPrediction) (count threshold : String) :
    ¬ ("Domain '" ++ prediction.domain ++ "' not yet unlocked (" ++ count ++ "/" ++ threshold ++
          " positive interactions)" = domainReason prediction ∨
      (∃ pattern ∈ sensitivePathSubstrings,
        "Domain '" ++ prediction.domain ++ "' not yet unlocked (" ++ count ++ "/" ++ threshold ++
          " positive interactions)" = pathReason pattern) ∨
      "Domain '" ++ prediction.domain ++ "' not yet unlocked (" ++ count ++ "/" ++ threshold ++
        " positive interactions)" = lateNightReason prediction) := by
  have hhead : ("Domain '" ++ prediction.domain ++ "' not yet unlocked (" ++ count ++ "/" ++
      threshold ++ " positive interactions)").toList.head? = some 'D' :=
    head_append (head_append (head_append (head_append (head_append (head_append (by decide))))))
  rintro (h | ⟨pattern, -, h⟩ | h)
  · -- after the domain, one text goes on with `is` and the other with `not`
    have hrest := congrArg String.toList h
    simp only [domainReason, String.toList_append, List.append_assoc,
      List.append_cancel_left_eq] at hrest
    have hthird := congrArg (fun l : List Char => l[2]?) hrest
    rw [List.getElem?_append_left (by decide)] at hthird
    exact absurd hthird (by decide)
  · exact ne_of_head hhead (head_pathReason pattern) (by decide) h
  · exact ne_of_head hhead (head_lateNightReason prediction) (by decide) h

/-- Held back for its content, a prediction is of an intimate domain, has a sensitive path, or
comes late at night in a domain other than those of the night. -/
theorem HoldsContent.cases {prediction : ContextPrediction} {acceptance : DomainAcceptance}
    (h : HoldsContent prediction acceptance) :
    prediction.domain ∈ highIntimacyDomains ∨ SensitivePaths prediction.filePaths ∨
      (isLateNight prediction.timeOfDay = true ∧ prediction.domain ∉ nightOkDomains) := by
  obtain ⟨reason, hheld, hreason⟩ := h
  by_contra hnone
  simp only [not_or] at hnone
  obtain ⟨hdomain, hpaths, hnight⟩ := hnone
  have hnight' : (isLateNight prediction.timeOfDay &&
      !nightOkDomains.contains prediction.domain) ≠ true := by
    rw [ne_eq, Bool.and_eq_true, Bool.not_eq_true', ← Bool.not_eq_true, List.contains_iff_mem]
    exact hnight
  rw [shouldPreload, sensitivePattern?_eq_none.mpr hpaths,
    if_neg fun hc => hdomain (List.contains_iff_mem.mp hc)] at hheld
  simp only [if_neg hnight'] at hheld
  split at hheld
  · obtain rfl := PreloadDecision.holdBack.inj hheld
    exact not_contentReason (c := 'C')
      (head_append (head_append (head_append (by decide)))) (by decide) hreason
  split at hheld
  · obtain rfl := PreloadDecision.holdBack.inj hheld
    exact not_contentReason (c := 'P') (by decide) (by decide) hreason
  split at hheld
  · obtain rfl := PreloadDecision.holdBack.inj hheld
    exact lockedReason_ne prediction _ _ hreason
  · cases hheld

/-! ## The firewall against the model -/

/-- Each pattern of the model's list has a word of the firewall's in it. -/
theorem sensitivePath_isIntimate {c : IntimacyClassifier} {prediction : ContextPrediction}
    (hc : c = .new) (h : SensitivePaths prediction.filePaths) :
    c.isIntimate prediction = true := by
  have hcover : ∀ pattern ∈ sensitivePathSubstrings, ∃ needle ∈ defaultIntimacyLexicon,
      Text.contains pattern (Text.toLowercase needle) = true := by decide
  obtain ⟨path, hpath, pattern, hpattern, hcontains⟩ := h
  obtain ⟨needle, hneedle, hword⟩ := hcover pattern hpattern
  subst hc
  exact IntimacyClassifier.isIntimate_of_path hneedle hpath (Text.contains_trans hcontains hword)

/-- The high-intimacy domains of the model are private for the firewall. -/
theorem highIntimacy_private {domain : String} (h : domain ∈ highIntimacyDomains) :
    domain ∈ DomainFilter.new.alwaysPrivate := by
  have hsub : ∀ d ∈ highIntimacyDomains, d ∈ defaultPrivateDomains := by decide
  exact List.mem_toFinset.mpr (hsub domain h)

/-- Whatever the user has opted into and accepted, the firewall blocks what the model holds
back for its content. -/
theorem filter_blocks_of_holdsContent (calls : List CognitiveFirewall.FilterCall)
    (prediction : ContextPrediction) (acceptance : DomainAcceptance)
    (h : HoldsContent prediction acceptance) :
    ∃ reason, (CognitiveFirewall.afterCalls calls).filter prediction = .block reason := by
  obtain ⟨hlexicon, hprivate⟩ := CognitiveFirewall.afterCalls_lists calls
  refine CognitiveFirewall.filter_block_of_ne_pass fun hpass => ?_
  obtain ⟨hclean, hpublic, -, hday⟩ := CognitiveFirewall.filter_eq_pass.mp hpass
  rcases h.cases with hdomain | hpath | hnight
  · rw [hprivate] at hpublic
    exact hpublic (highIntimacy_private hdomain)
  · rw [sensitivePath_isIntimate hlexicon hpath] at hclean
    cases hclean
  · exact hday hnight

/-- A bank statement: the domain is opted into, and blocked. -/
theorem filter_blocks_finance :
    ∃ reason, (CognitiveFirewall.afterCalls [.optIn "finance"]).filter
      { predictedAction := "open_workspace", confidence := 0.92, domain := "finance",
        filePaths := ["~/budget.ods"], triggerSignal := "9am pattern", timeOfDay := 9 } =
        .block reason :=
  filter_blocks_of_holdsContent _ _ DomainAcceptance.empty
    ⟨_, by decide, Or.inl rfl⟩

end Hal

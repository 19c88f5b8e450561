/-
# `Cognos.Hal.RestraintModel` — what the context preloader may show

A prediction is preloaded only when the model is sure of it, its domain is not an intimate
one, none of its files looks private, the hour fits, the action reads no content, and the
user has accepted three predictions of its domain.  The first test that fails holds it back.
Counts are `u32` and wrap, as they do in a release build.

    shouldPreload_eq_preload   the tests a prediction must pass
    after_recordAcceptance …   what each call does to a domain, and to the other domains
-/
import Mathlib
import Cognos.Lib.Text
import Cognos.Lib.FloatText

namespace Hal

/-! ## The lists -/

def confidenceThreshold : Float32 := 0.85

/-- Domains that are always held back. -/
def highIntimacyDomains : List String := ["personal", "finance", "health", "private"]

/-- Substrings of a file path that hold back, whatever the domain. -/
def sensitivePathSubstrings : List String :=
  ["diary", "journal", "private", "personal", ".kdbx",
    "password", "credential", "therapy", "medical", "secret"]

/-- Domains where late-night preloading is acceptable. -/
def nightOkDomains : List String := ["coding", "work"]

/-- Number of positive interactions needed before a domain unlocks. -/
def acceptanceThreshold : UInt32 := 3

structure ContextPrediction where
  predictedAction : String
  confidence : Float32
  domain : String
  filePaths : List String
  triggerSignal : String
  timeOfDay : UInt8

inductive PreloadDecision
  | preload
  | holdBack (reason : String)
  deriving DecidableEq, Repr

/-! ## The acceptance of domains -/

/-- The count of positive interactions for each domain, and the domains the user disabled. -/
structure DomainAcceptance where
  positiveCounts : AList fun _ : String => UInt32
  locked : Finset String

namespace DomainAcceptance

/-- `DomainAcceptance::default()`. -/
def empty : DomainAcceptance := { positiveCounts := ∅, locked := ∅ }

def acceptanceCount (a : DomainAcceptance) (domain : String) : UInt32 :=
  (a.positiveCounts.lookup domain).getD 0

def isUnlocked (a : DomainAcceptance) (domain : String) : Bool :=
  if domain ∈ a.locked then false
  else decide (acceptanceThreshold ≤ (a.positiveCounts.lookup domain).getD 0)

def recordAcceptance (a : DomainAcceptance) (domain : String) : DomainAcceptance :=
  { a with positiveCounts :=
      a.positiveCounts.insert domain ((a.positiveCounts.lookup domain).getD 0 + 1) }

def lock (a : DomainAcceptance) (domain : String) : DomainAcceptance :=
  { a with locked := insert domain a.locked }

def unlock (a : DomainAcceptance) (domain : String) : DomainAcceptance :=
  { a with locked := a.locked.erase domain }

theorem isUnlocked_iff {a : DomainAcceptance} {domain : String} :
    a.isUnlocked domain = true ↔
      domain ∉ a.locked ∧ acceptanceThreshold ≤ a.acceptanceCount domain := by
  unfold isUnlocked acceptanceCount
  split
  · next h => exact iff_of_false Bool.false_ne_true fun hu => hu.1 h
  · next h =>
      rw [decide_eq_true_eq]
      exact (and_iff_right h).symm

theorem acceptanceCount_recordAcceptance (a : DomainAcceptance) (domain d : String) :
    (a.recordAcceptance domain).acceptanceCount d =
      if d = domain then a.acceptanceCount d + 1 else a.acceptanceCount d := by
  unfold recordAcceptance acceptanceCount
  split
  · next h => rw [h, AList.lookup_insert, Option.getD_some]
  · next h => rw [AList.lookup_insert_ne h]

@[simp] theorem locked_recordAcceptance (a : DomainAcceptance) (domain : String) :
    (a.recordAcceptance domain).locked = a.locked := rfl

@[simp] theorem acceptanceCount_lock (a : DomainAcceptance) (domain d : String) :
    (a.lock domain).acceptanceCount d = a.acceptanceCount d := rfl

@[simp] theorem acceptanceCount_unlock (a : DomainAcceptance) (domain d : String) :
    (a.unlock domain).acceptanceCount d = a.acceptanceCount d := rfl

end DomainAcceptance

/-! ## The decision -/

/-- The first pattern that a file path contains. -/
def sensitivePattern? (paths : List String) : Option String :=
  paths.findSome? fun path =>
    sensitivePathSubstrings.find? fun pattern => Text.contains (Text.toLowercase path) pattern

def isLateNight (hour : UInt8) : Bool := hour ≥ 22 || hour ≤ 6

/-- The action reads what is in a file. -/
def readsContent (action : String) : Bool :=
  let actionLower := Text.toLowercase action
  Text.contains actionLower "read" || Text.contains actionLower "extract" ||
    Text.contains actionLower "parse"

/-- `{:02}`. -/
def twoDigits (n : Nat) : String := if n < 10 then "0" ++ toString n else toString n

/-- `RestraintModel::should_preload`. -/
def shouldPreload (prediction : ContextPrediction) (acceptance : DomainAcceptance) :
    PreloadDecision :=
  -- 1. the model must be highly certain
  if prediction.confidence < confidenceThreshold then
    .holdBack ("Confidence " ++ FloatText.fixed2 (FloatText.widen prediction.confidence) ++
      " below threshold " ++ FloatText.fixed2 (FloatText.widen confidenceThreshold))
  -- 2. high-intimacy domains
  else if highIntimacyDomains.contains prediction.domain then
    .holdBack ("Domain '" ++ prediction.domain ++ "' is always held back (high-intimacy)")
  else
    -- 3. sensitive file paths
    match sensitivePattern? prediction.filePaths with
    | some pattern =>
        .holdBack ("File path contains sensitive pattern '" ++ pattern ++ "' — held back")
    | none =>
        -- 4. late-night non-work preloads
        if isLateNight prediction.timeOfDay && !nightOkDomains.contains prediction.domain then
          .holdBack ("Late night (" ++ twoDigits prediction.timeOfDay.toNat ++
            ":00) preload in domain '" ++ prediction.domain ++ "' — held back")
        -- 5. content-reading actions
        else if readsContent prediction.predictedAction then
          .holdBack
            "Predicted action reads file content — only app-open preloading is allowed"
        -- 6. the domain must be unlocked
        else if !acceptance.isUnlocked prediction.domain then
          .holdBack ("Domain '" ++ prediction.domain ++ "' not yet unlocked (" ++
            toString (acceptance.acceptanceCount prediction.domain).toNat ++ "/" ++
            toString acceptanceThreshold.toNat ++ " positive interactions)")
        else .preload

/-- Some file path contains a sensitive pattern. -/
def SensitivePaths (paths : List String) : Prop :=
  ∃ path ∈ paths, ∃ pattern ∈ sensitivePathSubstrings,
    Text.contains (Text.toLowercase path) pattern = true

theorem sensitivePattern?_eq_none {paths : List String} :
    sensitivePattern? paths = none ↔ ¬ SensitivePaths paths := by
  unfold sensitivePattern? SensitivePaths
  simp only [List.findSome?_eq_none_iff, List.find?_eq_none]
  push Not
  rfl

/-- The six tests. -/
theorem shouldPreload_eq_preload {prediction : ContextPrediction} {acceptance : DomainAcceptance} :
    shouldPreload prediction acceptance = .preload ↔
      ¬ prediction.confidence < confidenceThreshold ∧
      prediction.domain ∉ highIntimacyDomains ∧ ¬ SensitivePaths prediction.filePaths ∧
      ¬ (isLateNight prediction.timeOfDay = true ∧ prediction.domain ∉ nightOkDomains) ∧
      readsContent prediction.predictedAction = false ∧
      acceptance.isUnlocked prediction.domain = true := by
  have hnight : nightOkDomains.contains prediction.domain = false ↔
      prediction.domain ∉ nightOkDomains := by
    rw [← Bool.not_eq_true, List.contains_iff_mem]
  rw [← sensitivePattern?_eq_none]
  unfold shouldPreload
  simp only [ite_eq_iff, reduceCtorEq, and_false, false_or, List.contains_iff_mem]
  cases sensitivePattern? prediction.filePaths with
  | some pattern => simp only [reduceCtorEq, false_and, and_false]
  | none =>
      simp only [true_and, ite_eq_iff, reduceCtorEq, and_false, false_or, and_true,
        Bool.and_eq_true, Bool.not_eq_true', hnight, Bool.not_eq_true, Bool.not_eq_false]

example : shouldPreload
    { predictedAction := "open_workspace", confidence := 0.92, domain := "coding",
      filePaths := ["~/projects/motor.py"], triggerSignal := "9am pattern", timeOfDay := 9 }
    (((DomainAcceptance.empty.recordAcceptance "coding").recordAcceptance "coding").recordAcceptance
      "coding") = .preload := by decide

end Hal

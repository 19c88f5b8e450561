/-
# `Cognos.Scheduler.Restraint` — the preloader's gate in Python

The second copy of the restraint model.  It looks for private files with regular
expressions, keeps the acceptance of domains in a file, and counts without a bound.  What
`json.dumps` wrote `json.loads` gives back, so the file is kept as the dictionary its text
stands for; a file that is not there, or cannot be read, counts as an empty one.

    shouldPreload_action   the tests a prediction must pass
    Saved.step             the file and the set of locked domains follow the dictionary
-/
import Mathlib
import Cognos.Lib.IgnoreCase
import Cognos.Lib.FloatText
import Cognos.Lib.PyValue

namespace Scheduler

open PyRe (Pattern)

/-! ## The lists -/

def highSensitivityDomains : List String := ["personal", "finance", "health", "private"]

/-- `SENSITIVE_PATH_PATTERNS`, each compiled with `re.IGNORECASE`. -/
def sensitivePathPatterns : List Pattern :=
  [⟨"diary".toList, false⟩, ⟨"journal".toList, false⟩, ⟨"private".toList, false⟩,
    ⟨"personal".toList, false⟩, ⟨".kdbx".toList, true⟩, ⟨"password".toList, false⟩,
    ⟨"credential".toList, false⟩, ⟨"therapy".toList, false⟩, ⟨"medical".toList, false⟩,
    ⟨"secret".toList, false⟩]

def nightOkDomains : List String := ["coding", "work"]

/-- Required number of positive interactions before a domain is unlocked. -/
def acceptanceThreshold : Nat := 3

structure ContextPrediction where
  predictedAction : String
  confidence : Float
  domain : String
  filePaths : List String
  triggerSignal : String
  timeOfDay : Int

inductive PreloadAction
  | preload
  | holdBack
  deriving DecidableEq, Repr

structure PreloadDecision where
  action : PreloadAction
  reason : String
  prediction : ContextPrediction

/-! ## The acceptance of domains -/

/-- What the dictionary holds for a domain; `locked` may not be set. -/
structure DomainEntry where
  positiveCount : Nat
  locked : Option Bool
  deriving DecidableEq, Repr

/-- `dict[str, dict]`. -/
abbrev Data := AList fun _ : String => DomainEntry

structure DomainAcceptanceTracker where
  data : Data
  locked : Finset String
  /-- What `domain_acceptance.json` stands for, if it is there. -/
  file : Option Data

namespace DomainAcceptanceTracker

/-- The domain is marked as locked in the dictionary: `v.get("locked", False)`. -/
def marked (data : Data) (d : String) : Bool :=
  ((data.lookup d).bind DomainEntry.locked).getD false

/-- `_load_locked`: the domains whose entry is marked. -/
def loadLocked (data : Data) : Finset String := data.keys.toFinset.filter (marked data · = true)

/-- `DomainAcceptanceTracker()`, with the file as it is. -/
def load (file : Option Data) : DomainAcceptanceTracker :=
  let data := file.getD ∅
  { data, locked := loadLocked data, file }

/-- `_save`. -/
def save (t : DomainAcceptanceTracker) : DomainAcceptanceTracker := { t with file := some t.data }

/-- `self._data.get(domain, {}).get("positive_count", 0)`. -/
def positiveCount (t : DomainAcceptanceTracker) (domain : String) : Nat :=
  ((t.data.lookup domain).map DomainEntry.positiveCount).getD 0

def isUnlocked (t : DomainAcceptanceTracker) (domain : String) : Bool :=
  if domain ∈ t.locked then false else decide (acceptanceThreshold ≤ t.positiveCount domain)

def recordAcceptance (t : DomainAcceptanceTracker) (domain : String) : DomainAcceptanceTracker :=
  let entry := (t.data.lookup domain).getD { positiveCount := 0, locked := some false }
  let entry := { entry with positiveCount := entry.positiveCount + 1 }
  save { t with data := t.data.insert domain entry }

def lockDomain (t : DomainAcceptanceTracker) (domain : String) : DomainAcceptanceTracker :=
  let entry := (t.data.lookup domain).getD { positiveCount := 0, locked := none }
  save { t with locked := insert domain t.locked,
                data := t.data.insert domain { entry with locked := some true } }

def unlockDomain (t : DomainAcceptanceTracker) (domain : String) : DomainAcceptanceTracker :=
  save { t with
    locked := t.locked.erase domain
    data := match t.data.lookup domain with
      | some entry => t.data.insert domain { entry with locked := some false }
      | none => t.data }

/-- A new tracker over the same file. -/
def reload (t : DomainAcceptanceTracker) : DomainAcceptanceTracker := load t.file

theorem isUnlocked_iff {t : DomainAcceptanceTracker} {domain : String} :
    t.isUnlocked domain = true ↔
      domain ∉ t.locked ∧ acceptanceThreshold ≤ t.positiveCount domain := by
  unfold isUnlocked
  split
  · next h => exact iff_of_false Bool.false_ne_true fun hu => hu.1 h
  · next h =>
      rw [decide_eq_true_eq]
      exact (and_iff_right h).symm

/-! ## What the file keeps -/

theorem mem_loadLocked {data : Data} {d : String} : d ∈ loadLocked data ↔ marked data d = true := by
  unfold loadLocked marked
  rw [Finset.mem_filter, List.mem_toFinset]
  refine and_iff_right_of_imp fun h => ?_
  cases hlookup : data.lookup d with
  | none => simp [hlookup] at h
  | some entry => exact AList.mem_lookup_iff.mp hlookup |> List.mem_keys_of_mem

/-- The set of locked domains is the marked ones, and the file holds the dictionary. -/
structure Saved (t : DomainAcceptanceTracker) : Prop where
  locked : ∀ d, d ∈ t.locked ↔ marked t.data d = true
  file : t.file.getD ∅ = t.data

theorem Saved.load (file : Option Data) : Saved (load file) :=
  ⟨fun _ => mem_loadLocked, rfl⟩

theorem marked_insert (data : Data) (domain d : String) (entry : DomainEntry) :
    marked (data.insert domain entry) d =
      if d = domain then entry.locked.getD false else marked data d := by
  unfold marked
  split
  · next h => rw [h, AList.lookup_insert, Option.bind_some]
  · next h => rw [AList.lookup_insert_ne h]

theorem Saved.recordAcceptance {t : DomainAcceptanceTracker} (h : Saved t) (domain : String) :
    Saved (t.recordAcceptance domain) := by
  refine ⟨fun d => ?_, rfl⟩
  refine (h.locked d).trans ?_
  unfold DomainAcceptanceTracker.recordAcceptance save
  rw [marked_insert]
  split
  · next hd =>
      unfold marked
      rw [hd]
      cases t.data.lookup domain with
      | none => rfl
      | some entry => rfl
  · rfl

theorem Saved.lockDomain {t : DomainAcceptanceTracker} (h : Saved t) (domain : String) :
    Saved (t.lockDomain domain) := by
  refine ⟨fun d => ?_, rfl⟩
  unfold DomainAcceptanceTracker.lockDomain save
  rw [Finset.mem_insert, marked_insert, h.locked]
  split
  · next hd => exact iff_of_true (Or.inl hd) rfl
  · next hd => exact or_iff_right hd

theorem Saved.unlockDomain {t : DomainAcceptanceTracker} (h : Saved t) (domain : String) :
    Saved (t.unlockDomain domain) := by
  refine ⟨fun d => ?_, rfl⟩
  unfold DomainAcceptanceTracker.unlockDomain save
  rw [Finset.mem_erase, h.locked]
  cases hlookup : t.data.lookup domain with
  | none =>
      refine and_iff_right_of_imp fun hm hd => ?_
      subst hd
      simp [marked, hlookup] at hm
  | some entry =>
      dsimp only
      rw [marked_insert]
      split
      · next hd => exact iff_of_false (fun hm => hm.1 hd) Bool.false_ne_true
      · next hd => exact and_iff_right hd

/-- A tracker that has saved is what a new tracker loads. -/
theorem Saved.reload_eq {t : DomainAcceptanceTracker} (h : Saved t) : t.reload = t := by
  obtain ⟨data, locked, file⟩ := t
  obtain ⟨hlocked, hfile⟩ := h
  unfold reload DomainAcceptanceTracker.load
  dsimp only at hlocked hfile ⊢
  rw [hfile]
  congr 1
  ext d
  rw [mem_loadLocked, hlocked]

/-! ## What a call does to a domain -/

theorem positiveCount_recordAcceptance (t : DomainAcceptanceTracker) (domain d : String) :
    (t.recordAcceptance domain).positiveCount d =
      if d = domain then t.positiveCount d + 1 else t.positiveCount d := by
  unfold recordAcceptance save positiveCount
  split
  · next h =>
      rw [h, AList.lookup_insert]
      cases t.data.lookup domain with
      | none => rfl
      | some entry => rfl
  · next h => rw [AList.lookup_insert_ne h]

theorem positiveCount_lockDomain (t : DomainAcceptanceTracker) (domain d : String) :
    (t.lockDomain domain).positiveCount d = t.positiveCount d := by
  unfold lockDomain save positiveCount
  by_cases h : d = domain
  · subst h
    rw [AList.lookup_insert]
    cases t.data.lookup d with
    | none => rfl
    | some entry => rfl
  · rw [AList.lookup_insert_ne h]

theorem positiveCount_unlockDomain (t : DomainAcceptanceTracker) (domain d : String) :
    (t.unlockDomain domain).positiveCount d = t.positiveCount d := by
  unfold unlockDomain save positiveCount
  cases hlookup : t.data.lookup domain with
  | none => rfl
  | some entry =>
      dsimp only
      by_cases h : d = domain
      · subst h
        rw [AList.lookup_insert, hlookup]
        rfl
      · rw [AList.lookup_insert_ne h]

end DomainAcceptanceTracker

/-! ## The decision -/

/-- The first file path that matches a pattern. -/
def sensitivePath? (paths : List String) : Option String :=
  paths.find? fun path => sensitivePathPatterns.any fun pattern => pattern.search path.toList

def isLateNight (hour : Int) : Bool := (22 ≤ hour && hour ≤ 23) || (0 ≤ hour && hour ≤ 6)

/-- `{:02d}`, of an hour. -/
def twoDigits (n : Int) : String := if 0 ≤ n ∧ n < 10 then "0" ++ toString n else toString n

def holdBack (prediction : ContextPrediction) (reason : String) : PreloadDecision :=
  { action := .holdBack, reason, prediction }

/-- `RestraintModel.should_preload`, without its line in the audit log. -/
def shouldPreload (acceptance : DomainAcceptanceTracker) (prediction : ContextPrediction) :
    PreloadDecision :=
  -- 1. confidence threshold
  if prediction.confidence < 0.85 then
    holdBack prediction
      ("Confidence " ++ FloatText.fixed2 prediction.confidence ++ " is below threshold 0.85")
  -- 2. high-sensitivity domain
  else if highSensitivityDomains.contains prediction.domain then
    holdBack prediction
      ("Domain '" ++ prediction.domain ++ "' is high-sensitivity — never preloaded")
  else
    -- 3. sensitive file paths
    match sensitivePath? prediction.filePaths with
    | some path =>
        holdBack prediction ("File path '" ++ Py.pathName path ++ "' matches sensitive pattern")
    | none =>
        -- 4. late-night personal content
        if isLateNight prediction.timeOfDay && !nightOkDomains.contains prediction.domain then
          holdBack prediction ("Late night (" ++ twoDigits prediction.timeOfDay ++
            ":00) preload in non-work domain '" ++ prediction.domain ++ "'")
        -- 5. reading file content
        else if Text.contains (Text.toLowercase prediction.predictedAction) "read" then
          holdBack prediction
            "Predicted action involves reading file content — only app launches allowed"
        -- 6. the domain is not yet accepted
        else if !acceptance.isUnlocked prediction.domain then
          holdBack prediction ("Domain '" ++ prediction.domain ++ "' not yet unlocked (needs " ++
            toString acceptanceThreshold ++ " positive interactions)")
        else { action := .preload, reason := "All restraint checks passed", prediction }

/-- Some file path matches a sensitive pattern. -/
def SensitivePaths (paths : List String) : Prop :=
  ∃ path ∈ paths, ∃ pattern ∈ sensitivePathPatterns, pattern.search path.toList = true

theorem sensitivePath?_eq_none {paths : List String} :
    sensitivePath? paths = none ↔ ¬ SensitivePaths paths := by
  unfold sensitivePath? SensitivePaths
  simp only [List.find?_eq_none, List.any_eq_true]
  push Not
  rfl

/-- The six tests. -/
theorem shouldPreload_action {acceptance : DomainAcceptanceTracker}
    {prediction : ContextPrediction} :
    (shouldPreload acceptance prediction).action = .preload ↔
      ¬ prediction.confidence < 0.85 ∧
      prediction.domain ∉ highSensitivityDomains ∧ ¬ SensitivePaths prediction.filePaths ∧
      ¬ (isLateNight prediction.timeOfDay = true ∧ prediction.domain ∉ nightOkDomains) ∧
      Text.contains (Text.toLowercase prediction.predictedAction) "read" = false ∧
      acceptance.isUnlocked prediction.domain = true := by
  have hnight : nightOkDomains.contains prediction.domain = false ↔
      prediction.domain ∉ nightOkDomains := by
    rw [← Bool.not_eq_true, List.contains_iff_mem]
  rw [← sensitivePath?_eq_none]
  unfold shouldPreload holdBack
  simp only [apply_ite PreloadDecision.action, ite_eq_iff, reduceCtorEq, and_false, false_or,
    List.contains_iff_mem]
  cases sensitivePath? prediction.filePaths with
  | some path => simp only [reduceCtorEq, false_and, and_false]
  | none =>
      simp only [true_and, apply_ite PreloadDecision.action, ite_eq_iff, reduceCtorEq, and_false,
        false_or, and_true, Bool.and_eq_true, Bool.not_eq_true', hnight, Bool.not_eq_true,
        Bool.not_eq_false]

end Scheduler

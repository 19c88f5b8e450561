/-
# `Cognos.System.TwoRestraints` — the two copies of the preloader's gate

The restraint model was written twice, in Rust for HAL and in Python for the scheduler.
Whatever is accepted, locked, unlocked and reloaded, the two trackers count and lock alike,
up to the `u32` of the Rust one.  The gates differ in what they look for: the Rust gate also
holds back an action that extracts or parses and a path with `.kdbx` in the middle, and the
regular expressions of the Python gate read `ı` and `ſ` as letters of a word.

    refinesRust, refinesPython   the trackers against what the calls come to
    restraints_agree_iff         when the two gates decide alike
-/
import Mathlib
import Cognos.Lib.Run
import Cognos.Hal.RestraintModel
import Cognos.Scheduler.Restraint

namespace System

/-! ## Histories -/

/-- A call on both trackers; `reload` is one on the Python tracker alone. -/
inductive RestraintCall
  | recordAcceptance (domain : String)
  | lock (domain : String)
  | unlock (domain : String)
  | reload

namespace RestraintCall

def onRust (a : Hal.DomainAcceptance) : RestraintCall → Hal.DomainAcceptance
  | recordAcceptance domain => a.recordAcceptance domain
  | lock domain => a.lock domain
  | unlock domain => a.unlock domain
  | reload => a

def onPython (t : Scheduler.DomainAcceptanceTracker) :
    RestraintCall → Scheduler.DomainAcceptanceTracker
  | recordAcceptance domain => t.recordAcceptance domain
  | lock domain => t.lockDomain domain
  | unlock domain => t.unlockDomain domain
  | reload => t.reload

end RestraintCall

/-- What the calls so far come to for a domain. -/
structure Standing where
  accepted : Nat
  locked : Bool

namespace Standing

def start : Standing := { accepted := 0, locked := false }

def step (standing : String → Standing) (call : RestraintCall) (d : String) : Standing :=
  match call with
  | .recordAcceptance domain =>
      if d = domain then { standing d with accepted := (standing d).accepted + 1 } else standing d
  | .lock domain => if d = domain then { standing d with locked := true } else standing d
  | .unlock domain => if d = domain then { standing d with locked := false } else standing d
  | .reload => standing d

end Standing

/-- The Rust tracker after the calls. -/
def rustTracker (calls : List RestraintCall) : Hal.DomainAcceptance :=
  Run.after RestraintCall.onRust .empty calls

/-- The Python tracker after the calls, from no file. -/
def pythonTracker (calls : List RestraintCall) : Scheduler.DomainAcceptanceTracker :=
  Run.after RestraintCall.onPython (.load none) calls

def standing (calls : List RestraintCall) : String → Standing :=
  Run.after Standing.step (fun _ => .start) calls

/-- The Rust tracker stands for `f`, its counts modulo `2 ^ 32`. -/
structure RefinesRust (a : Hal.DomainAcceptance) (f : String → Standing) : Prop where
  count : ∀ d, a.acceptanceCount d = UInt32.ofNat (f d).accepted
  locked : ∀ d, d ∈ a.locked ↔ (f d).locked = true

/-- The Python tracker stands for `f`, and so does its file. -/
structure RefinesPython (t : Scheduler.DomainAcceptanceTracker) (f : String → Standing) :
    Prop where
  saved : t.Saved
  count : ∀ d, t.positiveCount d = (f d).accepted
  locked : ∀ d, d ∈ t.locked ↔ (f d).locked = true

theorem RefinesRust.step {a : Hal.DomainAcceptance} {f : String → Standing}
    (h : RefinesRust a f) (call : RestraintCall) :
    RefinesRust (call.onRust a) (Standing.step f call) := by
  cases call with
  | recordAcceptance domain =>
      refine ⟨fun d => ?_, fun d => ?_⟩
      · show (a.recordAcceptance domain).acceptanceCount d = _
        rw [Hal.DomainAcceptance.acceptanceCount_recordAcceptance, Standing.step, h.count]
        split
        · exact (UInt32.ofNat_add _ 1).symm
        · rfl
      · refine (h.locked d).trans ?_
        rw [Standing.step]
        split <;> exact Iff.rfl
  | lock domain =>
      refine ⟨fun d => ?_, fun d => ?_⟩
      · refine (h.count d).trans ?_
        rw [Standing.step]
        split <;> rfl
      · refine Finset.mem_insert.trans ?_
        rw [Standing.step, h.locked]
        split
        · next hd => exact iff_of_true (Or.inl hd) rfl
        · next hd => exact or_iff_right hd
  | unlock domain =>
      refine ⟨fun d => ?_, fun d => ?_⟩
      · refine (h.count d).trans ?_
        rw [Standing.step]
        split <;> rfl
      · refine Finset.mem_erase.trans ?_
        rw [Standing.step, h.locked]
        split
        · next hd => exact iff_of_false (fun hm => hm.1 hd) Bool.false_ne_true
        · next hd => exact and_iff_right hd
  | reload => exact h

theorem RefinesPython.step {t : Scheduler.DomainAcceptanceTracker} {f : String → Standing}
    (h : RefinesPython t f) (call : RestraintCall) :
    RefinesPython (call.onPython t) (Standing.step f call) := by
  cases call with
  | recordAcceptance domain =>
      refine ⟨h.saved.recordAcceptance domain, fun d => ?_, fun d => ?_⟩
      · show (t.recordAcceptance domain).positiveCount d = _
        rw [Scheduler.DomainAcceptanceTracker.positiveCount_recordAcceptance, Standing.step,
          h.count]
        split <;> rfl
      · refine (h.locked d).trans ?_
        rw [Standing.step]
        split <;> exact Iff.rfl
  | lock domain =>
      refine ⟨h.saved.lockDomain domain, fun d => ?_, fun d => ?_⟩
      · show (t.lockDomain domain).positiveCount d = _
        rw [Scheduler.DomainAcceptanceTracker.positiveCount_lockDomain, Standing.step, h.count]
        split <;> rfl
      · refine Finset.mem_insert.trans ?_
        rw [Standing.step, h.locked]
        split
        · next hd => exact iff_of_true (Or.inl hd) rfl
        · next hd => exact or_iff_right hd
  | unlock domain =>
      refine ⟨h.saved.unlockDomain domain, fun d => ?_, fun d => ?_⟩
      · show (t.unlockDomain domain).positiveCount d = _
        rw [Scheduler.DomainAcceptanceTracker.positiveCount_unlockDomain, Standing.step, h.count]
        split <;> rfl
      · refine Finset.mem_erase.trans ?_
        rw [Standing.step, h.locked]
        split
        · next hd => exact iff_of_false (fun hm => hm.1 hd) Bool.false_ne_true
        · next hd => exact and_iff_right hd
  | reload =>
      show RefinesPython t.reload f
      rw [h.saved.reload_eq]
      exact h

theorem refinesRust (calls : List RestraintCall) :
    RefinesRust (rustTracker calls) (standing calls) := by
  refine Run.related _ (fun _ _ call h => h.step call) ⟨fun _ => rfl, fun d => ?_⟩ calls
  exact iff_of_false (Finset.notMem_empty d) Bool.false_ne_true

theorem refinesPython (calls : List RestraintCall) :
    RefinesPython (pythonTracker calls) (standing calls) := by
  refine Run.related _ (fun _ _ call h => h.step call) ⟨.load none, fun _ => rfl, fun d => ?_⟩ calls
  exact iff_of_false (Finset.notMem_empty d) Bool.false_ne_true

/-! ## What the two gates look for in paths -/

/-- The words both gates look for. -/
def sharedWords : List String :=
  ["diary", "journal", "private", "personal", "password", "credential", "therapy", "medical",
    "secret"]

/-- A path both gates hold back: a word in any case, or `.kdbx` at its end. -/
def SharedPath (path : String) : Prop :=
  (∃ word ∈ sharedWords, Text.contains (Text.toLowercase path) word = true) ∨
    (PyRe.Pattern.mk ".kdbx".toList true).search path.toList = true

/-- A path the Rust gate holds back for its `.kdbx`, wherever it is. -/
def KdbxPath (path : String) : Prop := Text.contains (Text.toLowercase path) ".kdbx" = true

/-- A path the Python gate holds back for a word, as its regular expressions read words. -/
def WordPath (path : String) : Prop :=
  ∃ word ∈ sharedWords, (PyRe.Pattern.mk word.toList false).search path.toList = true

theorem rust_sensitive_iff (path : String) :
    (∃ pattern ∈ Hal.sensitivePathSubstrings,
      Text.contains (Text.toLowercase path) pattern = true) ↔ SharedPath path ∨ KdbxPath path := by
  have hlists : Hal.sensitivePathSubstrings.Perm (".kdbx" :: sharedWords) := by decide
  simp only [hlists.mem_iff, List.mem_cons]
  constructor
  · rintro ⟨pattern, rfl | hp, hc⟩
    · exact Or.inr hc
    · exact Or.inl (Or.inl ⟨pattern, hp, hc⟩)
  · rintro ((⟨word, hw, hc⟩ | hend) | hk)
    · exact ⟨word, Or.inr hw, hc⟩
    · exact ⟨".kdbx", Or.inl rfl, PyRe.search_contains (by decide) (by decide) (by decide) hend⟩
    · exact ⟨".kdbx", Or.inl rfl, hk⟩

theorem python_sensitive_iff (path : String) :
    (∃ pattern ∈ Scheduler.sensitivePathPatterns, pattern.search path.toList = true) ↔
      SharedPath path ∨ WordPath path := by
  have hwords : ∀ word ∈ sharedWords, Text.NoSigma word.toList ∧ PyRe.dotAbove ∉ word.toList ∧
      word.toList.getLast? ≠ some 'i' ∧ word.toList ≠ [] := by decide
  have hlists : Scheduler.sensitivePathPatterns.Perm
      (⟨".kdbx".toList, true⟩ :: sharedWords.map fun word => ⟨word.toList, false⟩) := by decide
  simp only [hlists.mem_iff, List.mem_cons, List.mem_map]
  constructor
  · rintro ⟨pattern, rfl | ⟨word, hw, rfl⟩, hs⟩
    · exact Or.inl (Or.inr hs)
    · exact Or.inr ⟨word, hw, hs⟩
  · rintro ((⟨word, hw, hc⟩ | hend) | ⟨word, hw, hs⟩)
    · obtain ⟨hsigma, hdot, hlast, hne⟩ := hwords word hw
      exact ⟨_, Or.inr ⟨word, hw, rfl⟩, PyRe.contains_search hsigma hdot hlast hne hc⟩
    · exact ⟨_, Or.inl rfl, hend⟩
    · exact ⟨_, Or.inr ⟨word, hw, rfl⟩, hs⟩

/-! ## One prediction, two gates -/

/-- The same prediction in both languages, at an hour of the day and with a confidence that
is on the same side of the threshold. -/
structure SamePrediction (p : Hal.ContextPrediction) (q : Scheduler.ContextPrediction) : Prop where
  predictedAction : q.predictedAction = p.predictedAction
  domain : q.domain = p.domain
  filePaths : q.filePaths = p.filePaths
  triggerSignal : q.triggerSignal = p.triggerSignal
  timeOfDay : q.timeOfDay = p.timeOfDay.toNat
  hour : p.timeOfDay.toNat ≤ 23
  confidence : q.confidence < 0.85 ↔ p.confidence < Hal.confidenceThreshold

/-- Both gates preload the prediction after the calls, or both hold it back. -/
def GatesDecideAlike (calls : List RestraintCall) (p : Hal.ContextPrediction)
    (q : Scheduler.ContextPrediction) : Prop :=
  (Scheduler.shouldPreload (pythonTracker calls) q).action = .preload ↔
    Hal.shouldPreload p (rustTracker calls) = .preload

/-- A test that both gates make holds the prediction back. -/
def HeldByBoth (calls : List RestraintCall) (p : Hal.ContextPrediction) : Prop :=
  p.confidence < Hal.confidenceThreshold ∨ p.domain ∈ Hal.highIntimacyDomains ∨
    (∃ path ∈ p.filePaths, SharedPath path) ∨
    (Hal.isLateNight p.timeOfDay = true ∧ p.domain ∉ Hal.nightOkDomains) ∨
    Text.contains (Text.toLowercase p.predictedAction) "read" = true ∨
    (standing calls p.domain).locked = true ∨ (standing calls p.domain).accepted < 3

/-- A test of the Rust gate holds it back that the Python gate does not make: the action
extracts or parses, a path has `.kdbx` in the middle, the count has wrapped. -/
def HeldByRust (calls : List RestraintCall) (p : Hal.ContextPrediction) : Prop :=
  Text.contains (Text.toLowercase p.predictedAction) "extract" = true ∨
    Text.contains (Text.toLowercase p.predictedAction) "parse" = true ∨
    (∃ path ∈ p.filePaths, KdbxPath path) ∨ (standing calls p.domain).accepted % 2 ^ 32 < 3

/-- A test of the Python gate holds it back that the Rust gate does not make. -/
def HeldByPython (p : Hal.ContextPrediction) : Prop := ∃ path ∈ p.filePaths, WordPath path

theorem late_iff {p : Hal.ContextPrediction} {q : Scheduler.ContextPrediction}
    (h : SamePrediction p q) :
    Scheduler.isLateNight q.timeOfDay = true ↔ Hal.isLateNight p.timeOfDay = true := by
  have hhour := h.hour
  unfold Scheduler.isLateNight Hal.isLateNight
  rw [h.timeOfDay]
  simp only [Bool.or_eq_true, Bool.and_eq_true, decide_eq_true_eq, ge_iff_le, UInt8.le_iff_toNat_le]
  have h22 : (22 : UInt8).toNat = 22 := rfl
  have h6 : (6 : UInt8).toNat = 6 := rfl
  omega

theorem rust_preload_iff (calls : List RestraintCall) (p : Hal.ContextPrediction) :
    Hal.shouldPreload p (rustTracker calls) = .preload ↔
      ¬ (HeldByBoth calls p ∨ HeldByRust calls p) := by
  obtain ⟨hcount, hlocked⟩ := refinesRust calls
  have hpaths : Hal.SensitivePaths p.filePaths ↔
      (∃ path ∈ p.filePaths, SharedPath path) ∨ ∃ path ∈ p.filePaths, KdbxPath path := by
    unfold Hal.SensitivePaths
    simp only [rust_sensitive_iff, and_or_left, exists_or]
  have hunlocked : Hal.acceptanceThreshold ≤ (rustTracker calls).acceptanceCount p.domain ↔
      ¬ (standing calls p.domain).accepted % 2 ^ 32 < 3 := by
    have hthree : Hal.acceptanceThreshold.toNat = 3 := rfl
    rw [hcount, UInt32.le_iff_toNat_le, UInt32.toNat_ofNat', hthree, not_lt]
  have hmod : (standing calls p.domain).accepted < 3 →
      (standing calls p.domain).accepted % 2 ^ 32 < 3 := fun h =>
    lt_of_le_of_lt (Nat.mod_le _ _) h
  have hreads : Hal.readsContent p.predictedAction = false ↔
      ¬ (Text.contains (Text.toLowercase p.predictedAction) "read" = true ∨
        Text.contains (Text.toLowercase p.predictedAction) "extract" = true ∨
        Text.contains (Text.toLowercase p.predictedAction) "parse" = true) := by
    rw [← Bool.not_eq_true, Hal.readsContent, Bool.or_eq_true, Bool.or_eq_true, or_assoc]
  rw [Hal.shouldPreload_eq_preload, Hal.DomainAcceptance.isUnlocked_iff, hpaths, hunlocked,
    hlocked, hreads]
  unfold HeldByBoth HeldByRust
  simp only [not_or]
  constructor
  · rintro ⟨hconf, hdomain, ⟨hshared, hkdbx⟩, hlate, ⟨hread, hextract, hparse⟩, hlock, hcount⟩
    exact ⟨⟨hconf, hdomain, hshared, hlate, hread, hlock, fun h => hcount (hmod h)⟩, hextract,
      hparse, hkdbx, hcount⟩
  · rintro ⟨⟨hconf, hdomain, hshared, hlate, hread, hlock, -⟩, hextract, hparse, hkdbx, hcount⟩
    exact ⟨hconf, hdomain, ⟨hshared, hkdbx⟩, hlate, ⟨hread, hextract, hparse⟩, hlock, hcount⟩

theorem python_preload_iff (calls : List RestraintCall) {p : Hal.ContextPrediction}
    {q : Scheduler.ContextPrediction} (h : SamePrediction p q) :
    (Scheduler.shouldPreload (pythonTracker calls) q).action = .preload ↔
      ¬ (HeldByBoth calls p ∨ HeldByPython p) := by
  obtain ⟨-, hcount, hlocked⟩ := refinesPython calls
  have hpaths : Scheduler.SensitivePaths p.filePaths ↔
      (∃ path ∈ p.filePaths, SharedPath path) ∨ ∃ path ∈ p.filePaths, WordPath path := by
    unfold Scheduler.SensitivePaths
    simp only [python_sensitive_iff, and_or_left, exists_or]
  have hunlocked : Scheduler.acceptanceThreshold ≤ (pythonTracker calls).positiveCount p.domain ↔
      ¬ (standing calls p.domain).accepted < 3 := by
    rw [hcount]
    exact not_lt.symm
  have hdomains : Scheduler.highSensitivityDomains = Hal.highIntimacyDomains := rfl
  have hnight : Scheduler.nightOkDomains = Hal.nightOkDomains := rfl
  rw [Scheduler.shouldPreload_action, Scheduler.DomainAcceptanceTracker.isUnlocked_iff, late_iff h,
    h.confidence, h.domain, h.filePaths, h.predictedAction, hpaths, hunlocked, hlocked,
    ← Bool.not_eq_true, hdomains, hnight]
  unfold HeldByBoth HeldByPython
  simp only [not_or]
  constructor
  · rintro ⟨hconf, hdomain, ⟨hshared, hword⟩, hlate, hread, hlock, hcount⟩
    exact ⟨⟨hconf, hdomain, hshared, hlate, hread, hlock, hcount⟩, hword⟩
  · rintro ⟨⟨hconf, hdomain, hshared, hlate, hread, hlock, hcount⟩, hword⟩
    exact ⟨hconf, hdomain, ⟨hshared, hword⟩, hlate, hread, hlock, hcount⟩

/-- The gates decide alike when a test of both holds back, and else when each has a test of
its own that does, or neither. -/
theorem restraints_agree_iff (calls : List RestraintCall) (p : Hal.ContextPrediction)
    (q : Scheduler.ContextPrediction) (h : SamePrediction p q) :
    GatesDecideAlike calls p q ↔
      HeldByBoth calls p ∨ (HeldByRust calls p ↔ HeldByPython p) := by
  unfold GatesDecideAlike
  rw [python_preload_iff calls h, rust_preload_iff, not_iff_not]
  by_cases hboth : HeldByBoth calls p
  · exact iff_of_true (iff_of_true (Or.inl hboth) (Or.inl hboth)) (Or.inl hboth)
  · rw [or_iff_right hboth, or_iff_right hboth, or_iff_right hboth]
    exact iff_comm

namespace Restraint

def accepted : List RestraintCall := List.replicate 3 (.recordAcceptance "coding")

def rustPrediction (action : String) (paths : List String) : Hal.ContextPrediction :=
  { predictedAction := action, confidence := 0.92, domain := "coding", filePaths := paths,
    triggerSignal := "9am pattern", timeOfDay := 9 }

def pythonPrediction (action : String) (paths : List String) : Scheduler.ContextPrediction :=
  { predictedAction := action, confidence := 0.92, domain := "coding", filePaths := paths,
    triggerSignal := "9am pattern", timeOfDay := 9 }

theorem same (action : String) (paths : List String) :
    SamePrediction (rustPrediction action paths) (pythonPrediction action paths) where
  predictedAction := rfl
  domain := rfl
  filePaths := rfl
  triggerSignal := rfl
  timeOfDay := rfl
  hour := Nat.le_of_ble_eq_true rfl
  confidence := by
    have hrust : ¬ (0.92 : Float32) < Hal.confidenceThreshold := by decide
    have hpython : ¬ (0.92 : Float) < 0.85 := by decide
    exact iff_of_false hpython hrust

end Restraint

theorem restraints_agree_iff_open :
    GatesDecideAlike Restraint.accepted (Restraint.rustPrediction "open_workspace" [])
        (Restraint.pythonPrediction "open_workspace" []) ↔
      HeldByBoth Restraint.accepted (Restraint.rustPrediction "open_workspace" []) ∨
        (HeldByRust Restraint.accepted (Restraint.rustPrediction "open_workspace" []) ↔
          HeldByPython (Restraint.rustPrediction "open_workspace" [])) :=
  restraints_agree_iff _ _ _ (Restraint.same "open_workspace" [])

/-- An action that extracts text: Python preloads it, Rust does not. -/
theorem not_agree_extract :
    SamePrediction (Restraint.rustPrediction "extract_text" ["~/projects/motor.py"])
        (Restraint.pythonPrediction "extract_text" ["~/projects/motor.py"]) ∧
      ¬ GatesDecideAlike Restraint.accepted
        (Restraint.rustPrediction "extract_text" ["~/projects/motor.py"])
        (Restraint.pythonPrediction "extract_text" ["~/projects/motor.py"]) := by
  refine ⟨Restraint.same _ _, fun h => ?_⟩
  have hpython : (Scheduler.shouldPreload (pythonTracker Restraint.accepted)
      (Restraint.pythonPrediction "extract_text" ["~/projects/motor.py"])).action = .preload := by
    decide
  have hrust : Hal.shouldPreload (Restraint.rustPrediction "extract_text" ["~/projects/motor.py"])
      (rustTracker Restraint.accepted) ≠ .preload := by decide
  exact hrust (h.mp hpython)

end System

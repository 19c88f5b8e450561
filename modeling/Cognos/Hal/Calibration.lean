/-
# `Cognos.Hal.Calibration` — thresholds for each user

`trust_calibration.rs`: HAL interrupts when the score of an action reaches the threshold of
its class, feedback moves the threshold, and the thresholds are kept in a file.  They are
numbers of any type that has the operations; which laws they need is said once
(`Scores.Lawful`) and shown of `f32`s and of exact numbers where those are used.

    fits_after           thresholds stay from the floor of their class to one
    loadPersisted_json   what was written is what is loaded
    reloaded             however many steps later, when none of them writes
-/
import Mathlib
import Cognos.Hal.TrustCalibration
import Cognos.Lib.Json.Record
import Cognos.Lib.Json.Pretty
import Cognos.Lib.Run

namespace Hal

/-! ## Classes -/

namespace ActionClass

/-- The classes, in the order of `default_thresholds`. -/
def all : List ActionClass :=
  [.fileDelete, .fileMove, .packageInstall, .appLaunch, .systemConfig, .networkChange,
    .kernelAdjacent, .aiGeneratedCode]

theorem mem_all (c : ActionClass) : c ∈ all := by
  cases c <;> decide

theorem debug_injective {c d : ActionClass} (h : c.debug = d.debug) : c = d := by
  revert h
  cases c <;> cases d <;> decide

variable {α : Type} [OfScientific α]

/-- Conservative defaults for a new install. -/
def defaultThreshold : ActionClass → α
  | .fileDelete => 0.40
  | .fileMove => 0.25
  | .packageInstall => 0.50
  | .appLaunch => 0.10
  | .systemConfig => 0.60
  | .networkChange => 0.60
  | .kernelAdjacent => 0.80
  | .aiGeneratedCode => 0.80

/-- The floor below which a threshold can never go, regardless of feedback. -/
def minimumThreshold : ActionClass → α
  | .kernelAdjacent => 0.60
  | .aiGeneratedCode => 0.60
  | _ => 0.10

/-- The class of this variant name. -/
def ofVariant? (name : String) : Option ActionClass := all.find? fun c => c.debug = name

/-- `serde_json::from_str::<ActionClass>(&format!("\"{}\"", class_str))`. -/
def read? (classStr : String) : Option ActionClass :=
  match Json.parseText ("\"" ++ classStr ++ "\"") with
  | some (.str name) => ofVariant? name
  | _ => none

theorem ofVariant?_debug (c : ActionClass) : ofVariant? c.debug = some c := by
  cases c <;> decide

theorem read?_debug (c : ActionClass) : read? c.debug = some c := by
  have hquoted : "\"" ++ c.debug ++ "\"" = (Json.Value.str c.debug).print := by
    cases c <;> decide
  unfold read?
  rw [hquoted, Json.parseText_print]
  exact ofVariant?_debug c

end ActionClass

/-! ## Numbers -/

namespace Threshold

variable {α : Type} [LE α] [DecidableLE α] [LT α] [DecidableLT α]

/-- `a.max(b)` of `f32`: the number, where one of them is none. -/
protected def max (a b : α) : α := if b ≤ a then a else if b ≤ b then b else a

/-- `x.clamp(lo, hi)` of `f32`. -/
protected def clamp (x lo hi : α) : α :=
  let x := if x < lo then lo else x
  if hi < x then hi else x

end Threshold

/-- The texts of thresholds. -/
structure Scores (α : Type) where
  /-- A threshold as `serde` writes it. -/
  write : α → Json.Value
  /-- A value where a threshold is asked for. -/
  read : Json.Value → Option α

/-! ## The state -/

/-- The thresholds in memory. -/
structure TrustCalibration (α : Type) where
  thresholds : ActionClass → Option α

/-- What is at the path of the file. -/
inductive CalibrationFile
  | missing
  /-- Something that `read_to_string` fails on. -/
  | unreadable
  | text (json : String)
  deriving DecidableEq

/-- The order a `HashMap` gives its entries in. -/
structure Arrangement (α : Type) where
  order : List (String × α) → List (String × α)
  perm : ∀ entries, (order entries).Perm entries

/-- How `fs::write` ends: what a write that fails leaves, unless it leaves the file alone. -/
inductive WriteOutcome
  | written
  | failed (left : Option CalibrationFile)

/-- A calibration and its file. -/
structure Installation (α : Type) where
  calibration : TrustCalibration α
  file : CalibrationFile

/-! ## Entries of a map -/

section Entries

variable {α : Type}

/-- One entry of a `HashMap` for each key: the last one. -/
def lastEntries : List (String × α) → List (String × α)
  | [] => []
  | e :: es => if e.1 ∈ es.map Prod.fst then lastEntries es else e :: lastEntries es

theorem mem_lastEntries {es : List (String × α)} {e : String × α} (h : e ∈ lastEntries es) :
    e ∈ es := by
  induction es with
  | nil => exact h
  | cons d es ih =>
      unfold lastEntries at h
      split at h
      · exact List.mem_cons_of_mem _ (ih h)
      · rcases List.mem_cons.mp h with rfl | h
        · exact List.mem_cons_self
        · exact List.mem_cons_of_mem _ (ih h)

theorem lastEntries_eq_self {es : List (String × α)} (h : (es.map Prod.fst).Nodup) :
    lastEntries es = es := by
  induction es with
  | nil => rfl
  | cons e es ih =>
      obtain ⟨hnot, hrest⟩ := List.nodup_cons.mp h
      unfold lastEntries
      rw [if_neg hnot, ih hrest]

/-- A `HashMap<String, f32>` asked for. -/
def readMap (S : Scores α) : Json.Value → Option (List (String × α))
  | .obj fs => (fs.mapM fun f => (S.read f.2).map (f.1, ·)).map lastEntries
  | _ => none

/-- What is read of a map was a value each. -/
theorem read_of_mem {S : Scores α} {v : Json.Value} {es : List (String × α)}
    (h : readMap S v = some es) {e : String × α} (he : e ∈ es) : ∃ w, S.read w = some e.2 := by
  cases v with
  | obj fs =>
      obtain ⟨all, hall, rfl⟩ := Option.map_eq_some_iff.mp h
      have hmem := mem_lastEntries he
      clear h he
      induction fs generalizing all with
      | nil =>
          obtain rfl : [] = all := Option.some.inj hall
          cases hmem
      | cons f fs ih =>
          rw [List.mapM_cons] at hall
          obtain ⟨x, hx, hall⟩ := Option.bind_eq_some_iff.mp hall
          obtain ⟨xs, hxs, hall⟩ := Option.bind_eq_some_iff.mp hall
          obtain rfl : x :: xs = all := Option.some.inj hall
          rcases List.mem_cons.mp hmem with rfl | hmem
          · obtain ⟨y, hy, rfl⟩ := Option.map_eq_some_iff.mp hx
            exact ⟨f.2, hy⟩
          · exact ih xs hxs hmem
  | _ => cases h

namespace TrustCalibration

/-- The thresholds under the names of their classes. -/
def entries (cal : TrustCalibration α) : List (String × α) :=
  ActionClass.all.filterMap fun c => (cal.thresholds c).map (c.debug, ·)

theorem nodup_entries (cal : TrustCalibration α) : (cal.entries.map Prod.fst).Nodup := by
  have hsub : (cal.entries.map Prod.fst).Sublist (ActionClass.all.map ActionClass.debug) := by
    unfold TrustCalibration.entries
    induction ActionClass.all with
    | nil => exact .slnil
    | cons c cs ih =>
        rw [List.filterMap_cons]
        cases cal.thresholds c with
        | none => exact ih.cons _
        | some x => exact ih.cons_cons _
  exact hsub.nodup (by decide)

theorem mem_entries {cal : TrustCalibration α} {e : String × α} :
    e ∈ cal.entries ↔ ∃ c : ActionClass, e.1 = c.debug ∧ cal.thresholds c = some e.2 := by
  unfold TrustCalibration.entries
  rw [List.mem_filterMap]
  constructor
  · rintro ⟨c, -, hc⟩
    obtain ⟨x, hx, rfl⟩ := Option.map_eq_some_iff.mp hc
    exact ⟨c, rfl, hx⟩
  · rintro ⟨c, hname, hc⟩
    refine ⟨c, c.mem_all, ?_⟩
    rw [hc, Option.map_some, ← hname]

end TrustCalibration

end Entries

/-! ## Thresholds in their range -/

section Range

variable {α : Type} [OfScientific α]

/-- `get_threshold`: HAL interrupts when the action's risk score reaches it. -/
def TrustCalibration.getThreshold (cal : TrustCalibration α) (c : ActionClass) : α :=
  (cal.thresholds c).getD c.defaultThreshold

variable [LE α] {Held : α → Prop}

/-- A threshold of this class: from its floor to one, and one the format holds. -/
structure Fits (Held : α → Prop) (c : ActionClass) (x : α) : Prop where
  floor : c.minimumThreshold ≤ x
  one : x ≤ 1.0
  held : Held x

/-- Every class has a threshold, and it fits. -/
def AllFit (Held : α → Prop) (thresholds : ActionClass → Option α) : Prop :=
  ∀ c, ∃ x, thresholds c = some x ∧ Fits Held c x

theorem AllFit.update {thresholds : ActionClass → Option α} (h : AllFit Held thresholds)
    {c : ActionClass} {x : α} (hx : Fits Held c x) :
    AllFit Held (Function.update thresholds c (some x)) := by
  intro d
  by_cases hd : d = c
  · subst hd
    exact ⟨x, Function.update_self .., hx⟩
  · rw [Function.update_of_ne hd]
    exact h d

theorem getThreshold_fits {cal : TrustCalibration α} (h : AllFit Held cal.thresholds)
    (c : ActionClass) : Fits Held c (cal.getThreshold c) := by
  obtain ⟨x, hx, hfits⟩ := h c
  unfold TrustCalibration.getThreshold
  rw [hx]
  exact hfits

end Range

/-! ## The code -/

section Code

set_option linter.unusedSectionVars false

variable {α : Type} [OfScientific α] [LE α] [DecidableLE α] [LT α] [DecidableLT α] [Sub α]

/-- `default_thresholds`. -/
def defaultThresholds : ActionClass → Option α := fun c => some c.defaultThreshold

/-- `serde_json::from_str::<PersistedCalibration>(&json)`. -/
def readPersisted (S : Scores α) (json : String) : Option (List (String × α)) :=
  (Json.parseText json).bind fun v =>
    match Json.slots ["thresholds"] v with
    | some [slot] => Json.required (readMap S) slot
    | _ => none

/-- One entry of the file goes over the default of its class. -/
def insertRead (thresholds : ActionClass → Option α) (entry : String × α) :
    ActionClass → Option α :=
  match ActionClass.read? entry.1 with
  | some c =>
      Function.update thresholds c (some (Threshold.clamp entry.2 c.minimumThreshold 1.0))
  | none => thresholds

/-- `load_persisted`. -/
def loadPersisted (S : Scores α) (map : Arrangement α) :
    CalibrationFile → ActionClass → Option α
  | .text json =>
      match readPersisted S json with
      | some entries => (map.order entries).foldl insertRead defaultThresholds
      | none => defaultThresholds
  | _ => defaultThresholds

namespace TrustCalibration

/-- The threshold that feedback makes of an old one. -/
def newThreshold (c : ActionClass) (old : α) : Feedback → α
  | .unnecessaryInterrupt => Threshold.max (old - 0.05) c.minimumThreshold
  | .correctInterrupt => old
  | .alwaysAskForThis => 0.9

/-- What `record_feedback` does in memory. -/
def recordFeedback (cal : TrustCalibration α) (c : ActionClass) (f : Feedback) :
    TrustCalibration α where
  thresholds := Function.update cal.thresholds c (some (newThreshold c (cal.getThreshold c) f))

/-- The text of the file. -/
def json (S : Scores α) (map : Arrangement α) (cal : TrustCalibration α) : String :=
  (Json.record [("thresholds",
    some (.obj ((map.order cal.entries).map fun e => (e.1, S.write e.2))))]).pretty

/-- The scores at which the user is interrupted. -/
def asked (cal : TrustCalibration α) (c : ActionClass) : Set α := {s | cal.getThreshold c ≤ s}

theorem getThreshold_recordFeedback (cal : TrustCalibration α) (c : ActionClass) (f : Feedback) :
    (cal.recordFeedback c f).getThreshold c = newThreshold c (cal.getThreshold c) f := by
  show (Function.update cal.thresholds c (some _) c).getD _ = _
  rw [Function.update_self, Option.getD_some]

/-- Calibration is per class: deletes do not affect the thresholds of launches. -/
theorem getThreshold_recordFeedback_of_ne (cal : TrustCalibration α) {c d : ActionClass}
    (h : d ≠ c) (f : Feedback) : (cal.recordFeedback c f).getThreshold d = cal.getThreshold d := by
  show (Function.update cal.thresholds c (some _) d).getD _ = _
  rw [Function.update_of_ne h]
  rfl

/-- What `record_feedback` writes to the audit log. -/
def event (cal : TrustCalibration Float32) (timestamp : String) (c : ActionClass) (f : Feedback) :
    CalibrationEvent where
  timestamp := timestamp
  actionClass := c
  feedback := f
  oldThreshold := cal.getThreshold c
  newThreshold := newThreshold c (cal.getThreshold c) f

/-- The log has the thresholds before and after. -/
theorem thresholds_event (cal : TrustCalibration Float32) (timestamp : String) (c : ActionClass)
    (f : Feedback) : (cal.event timestamp c f).oldThreshold = cal.getThreshold c ∧
      (cal.event timestamp c f).newThreshold = (cal.recordFeedback c f).getThreshold c :=
  ⟨rfl, (cal.getThreshold_recordFeedback c f).symm⟩

end TrustCalibration

namespace Installation

/-- `persist`; its result is ignored wherever it is called. -/
def persist (S : Scores α) (map : Arrangement α) (i : Installation α) :
    WriteOutcome → Installation α
  | .written => { i with file := .text (i.calibration.json S map) }
  | .failed left => { i with file := left.getD i.file }

/-- `load_from`: defaults are written when there is no file. -/
def loadFrom (S : Scores α) (map map' : Arrangement α) (outcome : WriteOutcome)
    (file : CalibrationFile) : Installation α :=
  if file = .missing then persist S map' ⟨⟨defaultThresholds⟩, file⟩ outcome
  else ⟨⟨loadPersisted S map file⟩, file⟩

/-- `record_feedback`. -/
def record (S : Scores α) (i : Installation α) (c : ActionClass) (f : Feedback)
    (map : Arrangement α) (outcome : WriteOutcome) : Installation α :=
  persist S map { i with calibration := i.calibration.recordFeedback c f } outcome

end Installation

/-- What can be done, with the order and the outcome of the write. -/
inductive CalibrationOp (α : Type)
  | record (c : ActionClass) (f : Feedback) (map : Arrangement α) (outcome : WriteOutcome)
  | persist (map : Arrangement α) (outcome : WriteOutcome)
  /-- The daemon is started again. -/
  | reload (map map' : Arrangement α) (outcome : WriteOutcome)

namespace Installation

def step (S : Scores α) (i : Installation α) : CalibrationOp α → Installation α
  | .record c f map outcome => i.record S c f map outcome
  | .persist map outcome => i.persist S map outcome
  | .reload map map' outcome => loadFrom S map map' outcome i.file

theorem step_reload (S : Scores α) (i : Installation α) (map map' : Arrangement α)
    (outcome : WriteOutcome) :
    i.step S (.reload map map' outcome) = loadFrom S map map' outcome i.file := rfl

theorem thresholds_loadFrom {S : Scores α} {map map' : Arrangement α} {outcome : WriteOutcome}
    {file : CalibrationFile} (h : file ≠ .missing) :
    (loadFrom S map map' outcome file).calibration.thresholds = loadPersisted S map file := by
  unfold loadFrom
  rw [if_neg h]

end Installation

/-! ## Laws -/

/-- What is asked of the numbers and of their texts. -/
structure Scores.Lawful (S : Scores α) (Held : α → Prop) : Prop where
  default_fits : ∀ c : ActionClass, Fits Held c c.defaultThreshold
  floor_fits : ∀ c : ActionClass, Fits Held c c.minimumThreshold
  one_fits : ∀ c, Fits Held c 1.0
  always_fits : ∀ c, Fits Held c 0.9
  le_total : ∀ c x y, Fits Held c x → Fits Held c y → x ≤ y ∨ y ≤ x
  le_trans : ∀ c x y z, Fits Held c x → Fits Held c y → x ≤ y → y ≤ z → x ≤ z
  not_lt : ∀ c x y, Fits Held c x → Fits Held c y → (¬ x < y ↔ y ≤ x)
  lower_lt : ∀ c x, Fits Held c x → x - 0.05 < x
  lower_le_one : ∀ c x, Fits Held c x → x - 0.05 ≤ 1.0
  lower_held : ∀ c x, Fits Held c x → Held (x - 0.05)
  clamp_fits : ∀ c v x, S.read v = some x →
    Fits Held c (Threshold.clamp x c.minimumThreshold 1.0)
  read_write : ∀ c x, Fits Held c x → S.read (S.write x) = some x

variable {S : Scores α} {Held : α → Prop}

/-! ## Steps keep the range -/

namespace Scores.Lawful

variable (L : S.Lawful Held)

include L

theorem le_refl {c : ActionClass} {x : α} (h : Fits Held c x) : x ≤ x := by
  rcases L.le_total c x x h h with hle | hle
  · exact hle
  · exact hle

theorem allFit_default : AllFit Held (defaultThresholds (α := α)) :=
  fun c => ⟨c.defaultThreshold, rfl, L.default_fits c⟩

/-- Lowered, a threshold is the old one less a twentieth, or its floor. -/
theorem lowered (c : ActionClass) (x : α) :
    (c.minimumThreshold ≤ x - 0.05 ∧
        Threshold.max (x - 0.05) c.minimumThreshold = x - 0.05) ∨
      (¬ c.minimumThreshold ≤ x - 0.05 ∧
        Threshold.max (x - 0.05) c.minimumThreshold = c.minimumThreshold) := by
  unfold Threshold.max
  by_cases h : c.minimumThreshold ≤ x - 0.05
  · exact Or.inl ⟨h, if_pos h⟩
  · refine Or.inr ⟨h, ?_⟩
    rw [if_neg h, if_pos (L.le_refl (L.floor_fits c))]

theorem newThreshold_fits {c : ActionClass} {x : α} (h : Fits Held c x) (f : Feedback) :
    Fits Held c (TrustCalibration.newThreshold c x f) := by
  cases f with
  | unnecessaryInterrupt =>
      show Fits Held c (Threshold.max (x - 0.05) c.minimumThreshold)
      rcases L.lowered c x with ⟨hle, heq⟩ | ⟨-, heq⟩
      · rw [heq]
        exact ⟨hle, L.lower_le_one c x h, L.lower_held c x h⟩
      · rw [heq]
        exact L.floor_fits c
  | correctInterrupt => exact h
  | alwaysAskForThis => exact L.always_fits c

theorem recordFeedback_fits {cal : TrustCalibration α} (h : AllFit Held cal.thresholds)
    (c : ActionClass) (f : Feedback) : AllFit Held (cal.recordFeedback c f).thresholds :=
  h.update (L.newThreshold_fits (getThreshold_fits h c) f)

/-! ## Loading -/

theorem insertRead_fits {thresholds : ActionClass → Option α} (h : AllFit Held thresholds)
    {e : String × α} {v : Json.Value} (hv : S.read v = some e.2) :
    AllFit Held (insertRead thresholds e) := by
  unfold insertRead
  cases ActionClass.read? e.1 with
  | none => exact h
  | some c => exact h.update (L.clamp_fits c v e.2 hv)

/-- Whatever the file is, what is loaded fits. -/
theorem loadPersisted_fits (map : Arrangement α) (file : CalibrationFile) :
    AllFit Held (loadPersisted S map file) := by
  cases file with
  | missing => exact L.allFit_default
  | unreadable => exact L.allFit_default
  | text json =>
      cases hread : readPersisted S json with
      | none =>
          simp only [loadPersisted, hread]
          exact L.allFit_default
      | some entries =>
          simp only [loadPersisted, hread]
          have hmem : ∀ e ∈ map.order entries, ∃ w, S.read w = some e.2 := by
            intro e he
            have he' : e ∈ entries := (map.perm entries).mem_iff.mp he
            obtain ⟨v, -, hv⟩ := Option.bind_eq_some_iff.mp hread
            split at hv
            · next slot hslots =>
                cases slot with
                | none => cases hv
                | some w => exact read_of_mem hv he'
            · cases hv
          have hstart : AllFit Held (defaultThresholds (α := α)) := L.allFit_default
          revert hstart hmem
          generalize map.order entries = es
          generalize (defaultThresholds (α := α)) = thresholds
          intro hmem hstart
          induction es generalizing thresholds with
          | nil => exact hstart
          | cons e es ih =>
              obtain ⟨w, hw⟩ := hmem e List.mem_cons_self
              exact ih _ (fun d hd => hmem d (List.mem_cons_of_mem _ hd))
                (L.insertRead_fits hstart hw)

theorem loadFrom_fits (map map' : Arrangement α) (outcome : WriteOutcome)
    (file : CalibrationFile) :
    AllFit Held (Installation.loadFrom S map map' outcome file).calibration.thresholds := by
  unfold Installation.loadFrom
  split
  · cases outcome with
    | written => exact L.allFit_default
    | failed left => exact L.allFit_default
  · exact L.loadPersisted_fits map file

/-- Every step keeps the thresholds in their range. -/
theorem step_fits {i : Installation α} (h : AllFit Held i.calibration.thresholds)
    (op : CalibrationOp α) : AllFit Held (i.step S op).calibration.thresholds := by
  cases op with
  | record c f map outcome =>
      cases outcome with
      | written => exact L.recordFeedback_fits h c f
      | failed left => exact L.recordFeedback_fits h c f
  | persist map outcome =>
      cases outcome with
      | written => exact h
      | failed left => exact h
  | reload map map' outcome => exact L.loadFrom_fits map map' outcome i.file

/-- So does every run. -/
theorem fits_after {i : Installation α} (h : AllFit Held i.calibration.thresholds)
    (ops : List (CalibrationOp α)) :
    AllFit Held (Run.after (Installation.step S) i ops).calibration.thresholds :=
  Run.invariant_of_step _ (I := fun i : Installation α => AllFit Held i.calibration.thresholds)
    (fun _ op h => L.step_fits h op) h ops

/-! ## What was written is read -/

theorem clamp_eq_self {c : ActionClass} {x : α} (h : Fits Held c x) :
    Threshold.clamp x c.minimumThreshold 1.0 = x := by
  have hlow : ¬ x < c.minimumThreshold := (L.not_lt c _ _ h (L.floor_fits c)).mpr h.floor
  have hhigh : ¬ 1.0 < x := (L.not_lt c _ _ (L.one_fits c) h).mpr h.one
  unfold Threshold.clamp
  simp only [if_neg hlow, if_neg hhigh]

/-- The map of the file reads back as the entries. -/
theorem readMap_write {es : List (String × α)} (hnodup : (es.map Prod.fst).Nodup)
    (h : ∀ e ∈ es, ∃ c, Fits Held c e.2) :
    readMap S (.obj (es.map fun e => (e.1, S.write e.2))) = some es := by
  have hmap : (es.map fun e => (e.1, S.write e.2)).mapM
      (fun f => (S.read f.2).map (f.1, ·)) = some es := by
    clear hnodup
    induction es with
    | nil => rfl
    | cons e es ih =>
        obtain ⟨c, hc⟩ := h e List.mem_cons_self
        rw [List.map_cons, List.mapM_cons, ih fun d hd => h d (List.mem_cons_of_mem _ hd),
          L.read_write c e.2 hc]
        rfl
  show ((es.map fun e => (e.1, S.write e.2)).mapM
    (fun f => (S.read f.2).map (f.1, ·))).map lastEntries = some es
  rw [hmap, Option.map_some, lastEntries_eq_self hnodup]

/-- Entries of thresholds that fit, in any order, put these thresholds in place. -/
theorem foldl_insertRead {cal : TrustCalibration α} (h : AllFit Held cal.thresholds)
    {es : List (String × α)} (hes : ∀ e ∈ es, e ∈ cal.entries) (start : ActionClass → Option α)
    (c : ActionClass) (hc : start c = cal.thresholds c ∨ ∃ x, (c.debug, x) ∈ es) :
    es.foldl insertRead start c = cal.thresholds c := by
  induction es generalizing start with
  | nil =>
      rcases hc with hc | ⟨x, hx⟩
      · exact hc
      · cases hx
  | cons e es ih =>
      refine ih (fun d hd => hes d (List.mem_cons_of_mem _ hd)) _ ?_
      obtain ⟨d, hname, hd⟩ := TrustCalibration.mem_entries.mp (hes e List.mem_cons_self)
      have hfits : Fits Held d e.2 := by
        obtain ⟨x, hx, hfits⟩ := h d
        obtain rfl : x = e.2 := Option.some.inj (hx.symm.trans hd)
        exact hfits
      have hinsert : insertRead start e = Function.update start d (some e.2) := by
        unfold insertRead
        rw [hname, ActionClass.read?_debug]
        simp only [L.clamp_eq_self hfits]
      rw [hinsert]
      by_cases hcd : c = d
      · subst hcd
        left
        rw [Function.update_self, hd]
      · rw [Function.update_of_ne hcd]
        rcases hc with hc | ⟨x, hx⟩
        · exact Or.inl hc
        · right
          rcases List.mem_cons.mp hx with heq | hx
          · refine absurd (ActionClass.debug_injective ?_) hcd
            rw [← hname, ← heq]
          · exact ⟨x, hx⟩

/-- What was written is what is loaded. -/
theorem loadPersisted_json {cal : TrustCalibration α} (h : AllFit Held cal.thresholds)
    (map map' : Arrangement α) :
    loadPersisted S map (.text (cal.json S map')) = cal.thresholds := by
  have hperm := map'.perm cal.entries
  have hread : readPersisted S (cal.json S map') = some (map'.order cal.entries) := by
    unfold readPersisted TrustCalibration.json
    rw [Json.parseText_pretty, Option.bind_some]
    have hslots := Json.slots_record_self [("thresholds",
      some (.obj ((map'.order cal.entries).map fun e => (e.1, S.write e.2))))]
      (List.nodup_singleton _)
    rw [show ["thresholds"] = [("thresholds", some (Json.Value.obj
      ((map'.order cal.entries).map fun e => (e.1, S.write e.2))))].map Prod.fst from rfl, hslots]
    refine L.readMap_write ?_ ?_
    · exact ((hperm.map Prod.fst).nodup_iff).mpr (cal.nodup_entries)
    · intro e he
      obtain ⟨c, -, hc⟩ := TrustCalibration.mem_entries.mp (hperm.mem_iff.mp he)
      obtain ⟨x, hx, hfits⟩ := h c
      obtain rfl : x = e.2 := Option.some.inj (hx.symm.trans hc)
      exact ⟨c, hfits⟩
  unfold loadPersisted
  simp only [hread]
  funext c
  have hperm' : (map.order (map'.order cal.entries)).Perm cal.entries :=
    (map.perm _).trans hperm
  refine L.foldl_insertRead h (fun e he => hperm'.mem_iff.mp he) _ c (Or.inr ?_)
  obtain ⟨x, hx, -⟩ := h c
  exact ⟨x, hperm'.mem_iff.mpr (TrustCalibration.mem_entries.mpr ⟨c, rfl, hx⟩)⟩

end Scores.Lawful

/-! ## Writing and reading in a run -/

namespace CalibrationOp

/-- The step writes the file, all of it. -/
def Writes (i : Installation α) : CalibrationOp α → Prop
  | .record _ _ _ outcome => outcome = .written
  | .persist _ outcome => outcome = .written
  | .reload _ _ outcome => outcome = .written ∧ i.file = .missing

/-- The step leaves alone a file that is there. -/
def Leaves : CalibrationOp α → Prop
  | .record _ _ _ outcome => outcome = .failed none
  | .persist _ outcome => outcome = .failed none
  | .reload _ _ _ => True

end CalibrationOp

/-- A step that writes leaves its own thresholds in the file. -/
theorem file_of_writes {i : Installation α} {op : CalibrationOp α} (h : op.Writes i) :
    ∃ map, (i.step S op).file = .text ((i.step S op).calibration.json S map) := by
  cases op with
  | record c f map outcome =>
      obtain rfl : outcome = .written := h
      exact ⟨map, rfl⟩
  | persist map outcome =>
      obtain rfl : outcome = .written := h
      exact ⟨map, rfl⟩
  | reload map map' outcome =>
      obtain ⟨rfl, hmissing⟩ := h
      refine ⟨map', ?_⟩
      show (Installation.loadFrom S map map' .written i.file).file = .text
        ((Installation.loadFrom S map map' .written i.file).calibration.json S map')
      unfold Installation.loadFrom
      rw [if_pos hmissing]
      rfl

theorem file_of_leaves {i : Installation α} {op : CalibrationOp α} (h : op.Leaves)
    (hfile : i.file ≠ .missing) : (i.step S op).file = i.file := by
  cases op with
  | record c f map outcome =>
      obtain rfl : outcome = .failed none := h
      rfl
  | persist map outcome =>
      obtain rfl : outcome = .failed none := h
      rfl
  | reload map map' outcome =>
      show (Installation.loadFrom S map map' outcome i.file).file = i.file
      unfold Installation.loadFrom
      rw [if_neg hfile]

theorem file_after_leaves {i : Installation α} {ops : List (CalibrationOp α)}
    (h : ∀ op ∈ ops, op.Leaves) (hfile : i.file ≠ .missing) :
    (Run.after (Installation.step S) i ops).file = i.file := by
  induction ops generalizing i with
  | nil => rfl
  | cons op ops ih =>
      have hop := file_of_leaves (S := S) (h op List.mem_cons_self) hfile
      rw [Run.after_cons, ih (fun d hd => h d (List.mem_cons_of_mem _ hd)) (hop ▸ hfile), hop]

/-- However many steps that do not write come after one that does, a reload gives what it
wrote. -/
theorem Scores.Lawful.reloaded (L : S.Lawful Held) {i : Installation α}
    (h : AllFit Held i.calibration.thresholds) {op : CalibrationOp α} (hop : op.Writes i)
    {later : List (CalibrationOp α)} (hlater : ∀ d ∈ later, d.Leaves) (map map' : Arrangement α)
    (outcome : WriteOutcome) :
    ((Run.after (Installation.step S) (i.step S op) later).step S
      (.reload map map' outcome)).calibration.thresholds =
        (i.step S op).calibration.thresholds := by
  obtain ⟨map'', hfile⟩ := file_of_writes (S := S) hop
  have hthere : (i.step S op).file ≠ .missing := fun hmissing =>
    CalibrationFile.noConfusion (hfile.symm.trans hmissing)
  have hlast := file_after_leaves (S := S) hlater hthere
  have hload := L.loadPersisted_json (L.step_fits h op) map map''
  rw [Installation.step_reload, Installation.thresholds_loadFrom (hlast ▸ hthere), hlast, hfile]
  exact hload

end Code

end Hal

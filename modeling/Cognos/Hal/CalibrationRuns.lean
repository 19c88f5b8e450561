/-
# `Cognos.Hal.CalibrationRuns` — what feedback does

Thresholds as exact numbers and as `f32`s, and what becomes of them in a run: they stay in
their range and are reloaded as they were written; but HAL asks from the threshold on, so
feedback that raises it makes HAL ask less.

    bounded_and_reloaded   the range of every class, and reloading
    directed_iff           which runs go the way the user asked
-/
import Mathlib
import Cognos.Hal.Calibration
import Cognos.Lib.FloatDifference
import Cognos.Lib.FloatOrder
import Cognos.Lib.Json.Exact

namespace Hal

open TrustCalibration (asked newThreshold)

/-! ## Exact numbers -/

/-- Thresholds written down exactly. -/
def exactScores (P : Json.Printer) : Scores ℚ where
  write q := .num (P.print q)
  read
    | .num n => some n.value
    | _ => none

theorem floor_bounds (c : ActionClass) :
    (0.10 : ℚ) ≤ c.minimumThreshold ∧ (c.minimumThreshold : ℚ) ≤ 0.60 := by
  cases c <;> norm_num [ActionClass.minimumThreshold]

theorem floor_decimal (c : ActionClass) : Json.IsDecimal (c.minimumThreshold : ℚ) := by
  cases c <;> exact Json.isDecimal_ofScientific _ _

theorem exact_lawful (P : Json.Printer) : (exactScores P).Lawful Json.IsDecimal where
  default_fits c := by
    refine ⟨?_, ?_, ?_⟩
    · cases c <;> norm_num [ActionClass.defaultThreshold, ActionClass.minimumThreshold]
    · cases c <;> norm_num [ActionClass.defaultThreshold]
    · cases c <;> exact Json.isDecimal_ofScientific _ _
  floor_fits c := ⟨le_rfl, by have := floor_bounds c; linarith, floor_decimal c⟩
  one_fits c :=
    ⟨by have := floor_bounds c; linarith, le_rfl, Json.isDecimal_ofScientific _ _⟩
  always_fits c :=
    ⟨by have := floor_bounds c; linarith, by norm_num, Json.isDecimal_ofScientific _ _⟩
  le_total c x y _ _ := le_total x y
  le_trans c x y z _ _ hxy hyz := hxy.trans hyz
  not_lt c x y _ _ := not_lt
  lower_lt c x _ := by
    have hpos : (0 : ℚ) < 0.05 := by norm_num
    linarith
  lower_le_one c x h := by
    have hpos : (0 : ℚ) < 0.05 := by norm_num
    have hone := h.one
    linarith
  lower_held c x h := h.held.sub (Json.isDecimal_ofScientific _ _)
  clamp_fits c v x h := by
    have hfloor := floor_bounds c
    have hone := Json.isDecimal_ofScientific 10 1
    have hx : Json.IsDecimal x := by
      cases v with
      | num n =>
          obtain rfl : n.value = x := Option.some.inj h
          exact Json.isDecimal_value n
      | _ => cases h
    simp only [Threshold.clamp]
    split
    · split
      · exact ⟨by linarith, le_rfl, hone⟩
      · exact ⟨le_rfl, by linarith, floor_decimal c⟩
    · next hlow =>
        split
        · exact ⟨by linarith, le_rfl, hone⟩
        · next hhigh => exact ⟨not_lt.mp hlow, not_lt.mp hhigh, hx⟩
  read_write c x h := by
    have hfloor := floor_bounds c
    have hlow := h.floor
    exact congrArg some (P.value_print x (by linarith) h.held)

/-! ## Bounds and reloading -/

/-- Along every run of feedback, writes and reloads, from whatever file, the threshold of each
class stays from its floor to one; and a reload gives the thresholds that were written last. -/
theorem bounded_and_reloaded (P : Json.Printer) (map map' : Arrangement ℚ)
    (outcome : WriteOutcome) (file : CalibrationFile) (ops : List (CalibrationOp ℚ)) :
    let S := exactScores P
    let i := Run.after (Installation.step S) (Installation.loadFrom S map map' outcome file) ops
    (∀ c : ActionClass, c.minimumThreshold ≤ i.calibration.getThreshold c ∧
      i.calibration.getThreshold c ≤ 1) ∧
    ∀ (op : CalibrationOp ℚ) (later : List (CalibrationOp ℚ)) (map map' : Arrangement ℚ)
      (outcome : WriteOutcome), op.Writes i → (∀ d ∈ later, d.Leaves) →
        ((Run.after (Installation.step S) (i.step S op) later).step S
          (.reload map map' outcome)).calibration.thresholds =
            (i.step S op).calibration.thresholds := by
  intro S i
  have L : S.Lawful Json.IsDecimal := exact_lawful P
  have hfits : AllFit Json.IsDecimal i.calibration.thresholds :=
    L.fits_after (L.loadFrom_fits map map' outcome file) ops
  constructor
  · intro c
    have h := getThreshold_fits hfits c
    have hone : (1.0 : ℚ) = 1 := by norm_num
    exact ⟨h.floor, hone ▸ h.one⟩
  · intro op later map map' outcome hop hlater
    exact L.reloaded hfits hop hlater map map' outcome

/-! ## `f32`s -/

section Singles

open FloatText

/-- The texts of `f32`s; a number that is asked for is one. -/
structure ScoreTexts (Time : Type) extends Codecs Time where
  number_readF32 : ∀ n x, readF32 n = some x → x ≤ x

/-- Thresholds as `serde_json` writes and reads them. -/
def f32Scores {Time : Type} (K : ScoreTexts Time) : Scores Float32 where
  write := K.f32
  read := K.readF32?

theorem tenth_le_floor (c : ActionClass) :
    (0.1 : Float32) ≤ c.minimumThreshold ∧ (c.minimumThreshold : Float32) ≤ 0.6 := by
  cases c <;> decide

theorem isFinite_of_fits {x : Float32} (hlow : 0.1 ≤ x) (hhigh : x ≤ 1) : x.isFinite = true := by
  obtain ⟨m, e, h, hx, -⟩ := unpack_of_tenth_le hlow hhigh
  show x.toModel.unpack.isFinite = true
  rw [hx]
  rfl

namespace FitsF32

variable {c : ActionClass} {x : Float32} (h : Fits (fun _ => True) c x)

include h

theorem tenth_le : 0.1 ≤ x := le_trans32 (tenth_le_floor c).1 h.floor

theorem le_one : x ≤ 1 := le_trans32 h.one (by decide)

theorem le_self : x ≤ x := (le_self_of_le h.one).1

theorem lower : x - 0.05 < x ∧ x - 0.05 ≤ 1.0 := by
  obtain ⟨hlt, hone⟩ := lower_twentieth (tenth_le h) (le_one h)
  exact ⟨hlt, le_trans32 hone (by decide)⟩

end FitsF32

namespace FitsF32

theorem floor_le_self (c : ActionClass) : (c.minimumThreshold : Float32) ≤ c.minimumThreshold :=
  (le_self_of_le (tenth_le_floor c).1).2

theorem floor_le_one (c : ActionClass) : (c.minimumThreshold : Float32) ≤ 1.0 :=
  le_trans32 (tenth_le_floor c).2 (by decide)

/-- What is clamped fits, when it is a number. -/
theorem clamp_fits (c : ActionClass) {x : Float32} (hx : x ≤ x) :
    Fits (fun _ => True) c (Threshold.clamp x c.minimumThreshold 1.0) := by
  have hone : (1.0 : Float32) ≤ 1.0 := by decide
  simp only [Threshold.clamp]
  split
  · split
    · exact ⟨floor_le_one c, hone, trivial⟩
    · exact ⟨floor_le_self c, floor_le_one c, trivial⟩
  · next hlow =>
      split
      · exact ⟨floor_le_one c, hone, trivial⟩
      · next hhigh =>
          exact ⟨(not_lt_iff32 hx (floor_le_self c)).mp hlow, (not_lt_iff32 hone hx).mp hhigh,
            trivial⟩

end FitsF32

theorem f32_lawful {Time : Type} (K : ScoreTexts Time) :
    (f32Scores K).Lawful (fun _ => True) where
  default_fits c := ⟨by cases c <;> decide, by cases c <;> decide, trivial⟩
  floor_fits c := ⟨FitsF32.floor_le_self c, FitsF32.floor_le_one c, trivial⟩
  one_fits c := ⟨FitsF32.floor_le_one c, by decide, trivial⟩
  always_fits c := ⟨le_trans32 (tenth_le_floor c).2 (by decide), by decide, trivial⟩
  le_total c x y hx hy := le_total32 (FitsF32.le_self hx) (FitsF32.le_self hy)
  le_trans c x y z _ _ := le_trans32
  not_lt c x y hx hy := not_lt_iff32 (FitsF32.le_self hx) (FitsF32.le_self hy)
  lower_lt c x h := (FitsF32.lower h).1
  lower_le_one c x h := (FitsF32.lower h).2
  lower_held _ _ _ := trivial
  clamp_fits c v x hread := by
    cases v with
    | num n => exact FitsF32.clamp_fits c (K.number_readF32 n x hread)
    | _ => cases hread
  read_write c x h := K.readF32?_f32 (isFinite_of_fits (FitsF32.tenth_le h) (FitsF32.le_one h))

end Singles

/-! ## The way the user asked -/

section Direction

variable {α : Type} [OfScientific α] [LE α] [DecidableLE α] [LT α] [DecidableLT α] [Sub α]
  {S : Scores α} {Held : α → Prop}

namespace Installation

/-- The step goes the way the user asked: "always ask me about this" takes no score away from
those that are asked for, "that interruption was unnecessary" adds none. -/
def Follows (S : Scores α) (i : Installation α) : CalibrationOp α → Prop
  | .record c .alwaysAskForThis map outcome =>
      asked i.calibration c ⊆ asked (i.record S c .alwaysAskForThis map outcome).calibration c
  | .record c .unnecessaryInterrupt map outcome =>
      asked (i.record S c .unnecessaryInterrupt map outcome).calibration c ⊆ asked i.calibration c
  | _ => True

/-- The threshold was that high already, or on its floor already. -/
def Settled (i : Installation α) : CalibrationOp α → Prop
  | .record c .alwaysAskForThis _ _ => 0.9 ≤ i.calibration.getThreshold c
  | .record c .unnecessaryInterrupt _ _ => i.calibration.getThreshold c ≤ c.minimumThreshold
  | _ => True

/-- The run goes the way the user asked; and once the user asked to be asked, no later
complaint takes a score away from those that were asked for before it. -/
structure Directed (S : Scores α) (i : Installation α) (ops : List (CalibrationOp α)) : Prop where
  follows : Run.Along (step S) (Follows S) i ops
  stays : ∀ past c map outcome between map' outcome' rest,
    ops = past ++ .record c .alwaysAskForThis map outcome ::
      (between ++ .record c .unnecessaryInterrupt map' outcome' :: rest) →
    let before := Run.after (step S) i
      (past ++ .record c .alwaysAskForThis map outcome :: between)
    asked before.calibration c ⊆
      asked (before.record S c .unnecessaryInterrupt map' outcome').calibration c

end Installation

theorem getThreshold_record (i : Installation α) (c : ActionClass) (f : Feedback)
    (map : Arrangement α) (outcome : WriteOutcome) :
    (i.record S c f map outcome).calibration.getThreshold c =
      newThreshold c (i.calibration.getThreshold c) f := by
  cases outcome with
  | written => exact i.calibration.getThreshold_recordFeedback c f
  | failed left => exact i.calibration.getThreshold_recordFeedback c f

namespace Scores.Lawful

variable (L : S.Lawful Held)

include L

/-- A lower threshold is one that asks more. -/
theorem asked_subset_iff {c : ActionClass} {x y : α} (hx : Fits Held c x) (hy : Fits Held c y) :
    {s | x ≤ s} ⊆ {s | y ≤ s} ↔ y ≤ x := by
  constructor
  · intro h
    exact h (L.le_refl hx)
  · intro h s hs
    exact L.le_trans c y x s hy hx h hs

/-- A complaint never raises a threshold. -/
theorem lowered_le {c : ActionClass} {x : α} (h : Fits Held c x) :
    newThreshold c x .unnecessaryInterrupt ≤ x := by
  show Threshold.max (x - 0.05) c.minimumThreshold ≤ x
  rcases L.lowered c x with ⟨hle, heq⟩ | ⟨-, heq⟩
  · have hlow : Fits Held c (x - 0.05) := ⟨hle, L.lower_le_one c x h, L.lower_held c x h⟩
    rw [heq]
    rcases L.le_total c _ _ hlow h with hbelow | habove
    · exact hbelow
    · exact absurd (L.lower_lt c x h) ((L.not_lt c _ _ hlow h).mpr habove)
  · rw [heq]
    exact h.floor

/-- A step goes the way the user asked when there is nothing left to move. -/
theorem follows_iff {i : Installation α} (h : AllFit Held i.calibration.thresholds)
    (op : CalibrationOp α) : i.Follows S op ↔ i.Settled op := by
  cases op with
  | persist map outcome => exact Iff.rfl
  | reload map map' outcome => exact Iff.rfl
  | record c f map outcome =>
      have hold := getThreshold_fits h c
      have hnew := L.newThreshold_fits hold f
      cases f with
      | correctInterrupt => exact Iff.rfl
      | alwaysAskForThis =>
          show asked i.calibration c ⊆
            asked (i.record S c .alwaysAskForThis map outcome).calibration c ↔
              (0.9 : α) ≤ i.calibration.getThreshold c
          unfold asked
          rw [getThreshold_record, L.asked_subset_iff hold hnew]
          exact Iff.rfl
      | unnecessaryInterrupt =>
          show asked (i.record S c .unnecessaryInterrupt map outcome).calibration c ⊆
            asked i.calibration c ↔ i.calibration.getThreshold c ≤ c.minimumThreshold
          unfold asked
          rw [getThreshold_record, L.asked_subset_iff hnew hold]
          generalize i.calibration.getThreshold c = x at hold hnew
          show x ≤ Threshold.max (x - 0.05) c.minimumThreshold ↔ x ≤ c.minimumThreshold
          rcases L.lowered c x with ⟨hle, heq⟩ | ⟨-, heq⟩
          · -- lowered by all of the twentieth, the threshold was above its floor
            rw [heq]
            have hlow : Fits Held c (x - 0.05) :=
              ⟨hle, L.lower_le_one c x hold, L.lower_held c x hold⟩
            have hnot : ¬ x ≤ x - 0.05 := fun hge =>
              (L.not_lt c _ _ hlow hold).mpr hge (L.lower_lt c x hold)
            refine iff_of_false hnot fun hfloor => hnot ?_
            exact L.le_trans c _ _ _ hold (L.floor_fits c) hfloor hle
          · rw [heq]

/-- After a complaint everything is asked for that was. -/
theorem asked_of_complaint {i : Installation α} (h : AllFit Held i.calibration.thresholds)
    (c : ActionClass) (map : Arrangement α) (outcome : WriteOutcome) :
    asked i.calibration c ⊆
      asked (i.record S c .unnecessaryInterrupt map outcome).calibration c := by
  have hold := getThreshold_fits h c
  unfold asked
  rw [getThreshold_record, L.asked_subset_iff hold (L.newThreshold_fits hold _)]
  exact L.lowered_le hold

/-- Exactly the runs of settled steps go the way the user asked. -/
theorem directed {i : Installation α} (h : AllFit Held i.calibration.thresholds)
    (ops : List (CalibrationOp α)) :
    i.Directed S ops ↔ Run.Along (Installation.step S) Installation.Settled i ops := by
  have hkeep : ∀ (P : Installation α → CalibrationOp α → Prop) (i : Installation α)
      (op : CalibrationOp α), AllFit Held i.calibration.thresholds → P i op →
        AllFit Held (i.step S op).calibration.thresholds :=
    fun _ _ op hi _ => L.step_fits hi op
  constructor
  · intro hdirected
    exact Run.along_of_invariant _ (I := fun i : Installation α =>
      AllFit Held i.calibration.thresholds) (hkeep _) (fun i op hi => (L.follows_iff hi op).mp) h
      hdirected.follows
  · intro hsettled
    refine ⟨?_, ?_⟩
    · exact Run.along_of_invariant _ (I := fun i : Installation α =>
        AllFit Held i.calibration.thresholds) (hkeep _) (fun i op hi => (L.follows_iff hi op).mpr) h
        hsettled
    · intro past c map outcome between map' outcome' rest _
      exact L.asked_of_complaint (L.fits_after h _) c map' outcome'

end Scores.Lawful

end Direction

/-- From whatever file the daemon is started: a run goes the way the user asked exactly when each
"always ask me about this" finds a threshold that is nine tenths at least, and each "that
interruption was unnecessary" one on its floor. -/
theorem directed_iff {Time : Type} (K : ScoreTexts Time) (map map' : Arrangement Float32)
    (outcome : WriteOutcome) (file : CalibrationFile) (ops : List (CalibrationOp Float32)) :
    let S := f32Scores K
    let i := Installation.loadFrom S map map' outcome file
    i.Directed S ops ↔ Run.Along (Installation.step S) Installation.Settled i ops := by
  intro S i
  have L : S.Lawful (fun _ => True) := f32_lawful K
  exact L.directed (L.loadFrom_fits map map' outcome file) ops

/-! ## A new install -/

theorem le_self_of_isFinite {x : Float32} (h : x.isFinite = true) : x ≤ x := by
  rw [FloatText.le_self_iff]
  change x.toModel.unpack.isFinite = true at h
  show x.toModel.unpack.isNaN = false
  generalize x.toModel.unpack = u at h
  cases u with
  | notANumber => cases h
  | _ => rfl

/-- The sample, with what is not a number refused. -/
def ScoreTexts.sample : ScoreTexts { s : String // Json.escapedLen s ≤ 40 } where
  toCodecs := { Codecs.sample with
    readF32 := fun n => (Codecs.sampleRead n).filter fun x => decide (x ≤ x)
    readF32_printF32 := fun x h => by
      show (Codecs.sample.readF32 (Codecs.sample.printF32 x)).filter _ = some x
      rw [Codecs.sample.readF32_printF32 x h]
      exact if_pos (decide_eq_true (le_self_of_isFinite h))
    readF32_printWide := fun x h => by
      show (Codecs.sample.readF32 (Codecs.sample.printWide x)).filter _ = some x
      rw [Codecs.sample.readF32_printWide x h]
      exact if_pos (decide_eq_true (le_self_of_isFinite h))
    readF32_above := fun n h => by
      rw [Codecs.sampleRead, if_pos h]
      decide
    readF32_below := fun n h => by
      rw [Codecs.sampleRead, if_neg (by rw [h]; decide), if_pos h]
      decide }
  number_readF32 n x h := by
    have hx := (Option.filter_eq_some_iff.mp h).2
    exact of_decide_eq_true hx

/-- A `HashMap` that keeps the order. -/
def Arrangement.kept {α : Type} : Arrangement α := ⟨id, fun _ => List.Perm.refl _⟩

/-- On a new install, "always ask me" about deleting files ends the questions from four tenths
to nine tenths; calling a question about a move unnecessary adds questions. -/
theorem not_directed :
    let S := f32Scores ScoreTexts.sample
    let i := Installation.loadFrom S .kept .kept .written .missing
    ¬ i.Directed S [.record .fileDelete .alwaysAskForThis .kept .written] ∧
      ¬ i.Directed S [.record .fileMove .unnecessaryInterrupt .kept .written] := by
  intro S i
  constructor
  · intro h
    have hasked : (0.5 : Float32) ∈ asked i.calibration .fileDelete := by
      show (0.40 : Float32) ≤ 0.5
      decide
    have hnot : ¬ (0.9 : Float32) ≤ 0.5 := by decide
    exact hnot (h.follows.1 hasked)
  · intro h
    have hasked : (0.2 : Float32) ∈ asked (i.record S .fileMove .unnecessaryInterrupt .kept
        .written).calibration .fileMove := by
      show (i.record S .fileMove .unnecessaryInterrupt .kept .written).calibration.getThreshold
        .fileMove ≤ 0.2
      rw [getThreshold_record]
      show Threshold.max ((0.25 : Float32) - 0.05) 0.10 ≤ 0.2
      decide
    have hnot : ¬ (0.25 : Float32) ≤ 0.2 := by decide
    exact hnot (h.follows.1 hasked)

end Hal

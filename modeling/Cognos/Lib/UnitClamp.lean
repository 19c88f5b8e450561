/-
# `Cognos.Lib.UnitClamp` — scores clamped to the unit interval

`f32::clamp(0.0, 1.0)` in exact arithmetic.

    unitClamp_mem              between zero and one
    unitClamp_of_mem           what is there already stays
    unitClamp_eq_iff           when two clamped numbers are the same
    abs_unitClamp_sub_le       clamping takes no two numbers further apart
-/
import Mathlib

section

variable {K : Type} [Field K] [LinearOrder K]

/-- `clamp(0.0, 1.0)`. -/
def unitClamp (x : K) : K := if x < 0 then 0 else if 1 < x then 1 else x

theorem unitClamp_of_mem {x : K} (h : 0 ≤ x ∧ x ≤ 1) : unitClamp x = x := by
  rw [unitClamp, if_neg h.1.not_gt, if_neg h.2.not_gt]

variable [IsStrictOrderedRing K]

theorem unitClamp_eq_max_min (x : K) : unitClamp x = max 0 (min x 1) := by
  unfold unitClamp
  split
  · next hlow => rw [max_eq_left ((min_le_left x 1).trans hlow.le)]
  · next hlow =>
      have hzero : 0 ≤ x := not_lt.mp hlow
      split
      · next hhigh => rw [min_eq_right hhigh.le, max_eq_right zero_le_one]
      · next hhigh => rw [min_eq_left (not_lt.mp hhigh), max_eq_right hzero]

theorem unitClamp_mem (x : K) : 0 ≤ unitClamp x ∧ unitClamp x ≤ 1 := by
  rw [unitClamp_eq_max_min]
  exact ⟨le_max_left 0 _, max_le zero_le_one (min_le_right x 1)⟩

theorem unitClamp_mono {x y : K} (h : x ≤ y) : unitClamp x ≤ unitClamp y := by
  rw [unitClamp_eq_max_min, unitClamp_eq_max_min]
  exact max_le_max_left 0 (min_le_min_right 1 h)

theorem unitClamp_le {x c : K} (h : x ≤ c) (hc : 0 ≤ c) : unitClamp x ≤ c := by
  rw [unitClamp_eq_max_min]
  exact max_le hc ((min_le_left x 1).trans h)

theorem le_unitClamp {x c : K} (h : c ≤ x) (hc : c ≤ 1) : c ≤ unitClamp x := by
  rw [unitClamp_eq_max_min]
  exact (le_min h hc).trans (le_max_right 0 _)

theorem unitClamp_eq_zero_iff {x : K} : unitClamp x = 0 ↔ x ≤ 0 := by
  constructor
  · intro h
    by_contra hpos
    rw [unitClamp_eq_max_min, max_eq_right (le_min (not_le.mp hpos).le zero_le_one)] at h
    exact (lt_min (not_le.mp hpos) one_pos).ne' h
  · intro h
    rw [unitClamp_eq_max_min, max_eq_left ((min_le_left x 1).trans h)]

theorem unitClamp_eq_one_iff {x : K} : unitClamp x = 1 ↔ 1 ≤ x := by
  constructor
  · intro h
    by_contra hlt
    rw [unitClamp_eq_max_min, min_eq_left (not_le.mp hlt).le] at h
    exact (max_lt one_pos (not_le.mp hlt)).ne h
  · intro h
    rw [unitClamp_eq_max_min, min_eq_right h, max_eq_right zero_le_one]

/-- Two clamped numbers are the same when the numbers are, or both are past the same end. -/
theorem unitClamp_eq_iff {x y : K} :
    unitClamp x = unitClamp y ↔ x = y ∨ (x ≤ 0 ∧ y ≤ 0) ∨ (1 ≤ x ∧ 1 ≤ y) := by
  constructor
  · intro h
    rcases le_or_gt x 0 with hx | hx
    · rw [unitClamp_eq_zero_iff.mpr hx] at h
      exact Or.inr (Or.inl ⟨hx, unitClamp_eq_zero_iff.mp h.symm⟩)
    · rcases le_or_gt 1 x with hx1 | hx1
      · rw [unitClamp_eq_one_iff.mpr hx1] at h
        exact Or.inr (Or.inr ⟨hx1, unitClamp_eq_one_iff.mp h.symm⟩)
      · left
        rw [unitClamp_of_mem ⟨hx.le, hx1.le⟩] at h
        have hy0 : ¬ y ≤ 0 := fun hy => hx.ne' (h.trans (unitClamp_eq_zero_iff.mpr hy))
        have hy1 : ¬ 1 ≤ y := fun hy => hx1.ne (h.trans (unitClamp_eq_one_iff.mpr hy))
        rw [h, unitClamp_of_mem ⟨(not_le.mp hy0).le, (not_le.mp hy1).le⟩]
  · rintro (rfl | ⟨hx, hy⟩ | ⟨hx, hy⟩)
    · rfl
    · rw [unitClamp_eq_zero_iff.mpr hx, unitClamp_eq_zero_iff.mpr hy]
    · rw [unitClamp_eq_one_iff.mpr hx, unitClamp_eq_one_iff.mpr hy]

/-- Clamping takes no two numbers further apart. -/
theorem abs_unitClamp_sub_le (x y : K) : |unitClamp x - unitClamp y| ≤ |x - y| := by
  rw [unitClamp_eq_max_min, unitClamp_eq_max_min, max_comm 0, max_comm 0]
  have hmin : |min x 1 - min y 1| ≤ |x - y| := by
    have hmax := abs_min_sub_min_le_max x 1 y 1
    rwa [sub_self, abs_zero, max_eq_left (abs_nonneg _)] at hmax
  exact (abs_max_sub_max_le_abs _ _ 0).trans hmin

end

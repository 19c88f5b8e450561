/-
# `Cognos.Lib.FloatOrder` — the order of floats

Apart from the one that is not a number, floats are ordered as lists of integers are: by
sign, exponent and significand.

    lt_iff_key, le_iff_key   comparing is comparing keys
    le_self_iff              only what is not a number is not below itself
    le_trans32, le_total32   what follows of the order
    lt_of_lt_of_le32 …       and of its strict part
    le_trans64, le_total64   the same of `f64`
-/
import Mathlib
import Cognos.Lib.FloatUnit

namespace FloatText

open Float.Model (Format UnpackedFloat)
open Float.Model.UnpackedFloat

/-- What orders the floats that are numbers. -/
def key : UnpackedFloat → ℤ ×ₗ ℤ ×ₗ ℤ
  | .infinity .negative => toLex (-2, toLex (0, 0))
  | .finite .negative m e _ => toLex (-1, toLex (-e, -m))
  | .zero _ => toLex (0, toLex (0, 0))
  | .finite .positive m e _ => toLex (1, toLex (e, m))
  | .infinity .positive => toLex (2, toLex (0, 0))
  | .notANumber => toLex (3, toLex (0, 0))

theorem lt_iff_key_of_unpacked {u v : UnpackedFloat} (hu : u.isNaN = false)
    (hv : v.isNaN = false) : u.lt v = true ↔ key u < key v := by
  rcases u with ⟨⟨⟩⟩ | _ | _ | ⟨⟨⟩, m, e, hm⟩
  all_goals
    rcases v with ⟨⟨⟩⟩ | _ | _ | ⟨⟨⟩, n, f, hn⟩
    all_goals
      simp_all [UnpackedFloat.lt, UnpackedFloat.compare, key, Prod.Lex.toLex_lt_toLex,
        Ordering.then_eq_lt, UnpackedFloat.isNaN]
  · rfl
  · rw [Ordering.then_eq_gt, Int.compare_eq_gt, Int.compare_eq_eq, Nat.compare_eq_gt]
  · rw [Int.compare_eq_lt, Nat.compare_eq_lt]

theorem le_iff_key_of_unpacked {u v : UnpackedFloat} (hu : u.isNaN = false)
    (hv : v.isNaN = false) : u.le v = true ↔ key u ≤ key v := by
  rcases u with ⟨⟨⟩⟩ | _ | _ | ⟨⟨⟩, m, e, hm⟩
  all_goals
    rcases v with ⟨⟨⟩⟩ | _ | _ | ⟨⟨⟩, n, f, hn⟩
    all_goals
      simp_all [UnpackedFloat.le, UnpackedFloat.compare, key, Prod.Lex.toLex_le_toLex,
        Ordering.isLE_then_iff_or, UnpackedFloat.isNaN]
  · rfl
  · rfl
  · rfl
  · rfl
  · rw [← Ordering.isLE_swap, Ordering.swap_then, Int.compare_swap, Nat.compare_swap,
      Ordering.isLE_then_iff_or, Int.compare_eq_lt, Int.compare_eq_eq, Nat.isLE_compare]
    constructor
    · rintro (h | ⟨rfl, h⟩)
      · exact Or.inl h
      · exact Or.inr ⟨rfl, h⟩
    · rintro (h | ⟨rfl, h⟩)
      · exact Or.inl h
      · exact Or.inr ⟨rfl, h⟩
  · rw [Int.compare_eq_lt, Nat.isLE_compare]

theorem isNaN_of_le {u v : UnpackedFloat} (h : u.le v = true) :
    u.isNaN = false ∧ v.isNaN = false := by
  cases u with
  | notANumber => cases v <;> cases h
  | _ =>
      refine ⟨rfl, ?_⟩
      cases v with
      | notANumber => cases h
      | _ => rfl

theorem isNaN_of_lt {u v : UnpackedFloat} (h : u.lt v = true) :
    u.isNaN = false ∧ v.isNaN = false := by
  cases u with
  | notANumber => cases v <;> cases h
  | _ =>
      refine ⟨rfl, ?_⟩
      cases v with
      | notANumber => cases h
      | _ => rfl

/-! ## On `f32` -/

/-- What is not a number is not even below itself. -/
theorem le_self_iff {x : Float32} : x ≤ x ↔ x.isNaN = false := by
  rw [le_iff32]
  constructor
  · intro h
    exact (isNaN_of_le h).1
  · intro h
    exact (le_iff_key_of_unpacked h h).mpr le_rfl

theorem le_iff_key {x y : Float32} (hx : x ≤ x) (hy : y ≤ y) :
    x ≤ y ↔ key x.toModel.unpack ≤ key y.toModel.unpack := by
  rw [le_iff32]
  exact le_iff_key_of_unpacked (le_self_iff.mp hx) (le_self_iff.mp hy)

theorem lt_iff_key {x y : Float32} (hx : x ≤ x) (hy : y ≤ y) :
    x < y ↔ key x.toModel.unpack < key y.toModel.unpack := by
  rw [lt_iff32]
  exact lt_iff_key_of_unpacked (le_self_iff.mp hx) (le_self_iff.mp hy)

theorem le_self_of_le {x y : Float32} (h : x ≤ y) : x ≤ x ∧ y ≤ y := by
  obtain ⟨hx, hy⟩ := isNaN_of_le ((le_iff32 x y).mp h)
  exact ⟨le_self_iff.mpr hx, le_self_iff.mpr hy⟩

theorem not_lt_iff32 {x y : Float32} (hx : x ≤ x) (hy : y ≤ y) : ¬ x < y ↔ y ≤ x := by
  rw [lt_iff_key hx hy, le_iff_key hy hx, not_lt]

theorem le_total32 {x y : Float32} (hx : x ≤ x) (hy : y ≤ y) : x ≤ y ∨ y ≤ x := by
  rw [le_iff_key hx hy, le_iff_key hy hx]
  exact le_total _ _

theorem le_trans32 {x y z : Float32} (h : x ≤ y) (h' : y ≤ z) : x ≤ z := by
  obtain ⟨hx, hy⟩ := le_self_of_le h
  obtain ⟨-, hz⟩ := le_self_of_le h'
  rw [le_iff_key hx hy] at h
  rw [le_iff_key hy hz] at h'
  rw [le_iff_key hx hz]
  exact h.trans h'

theorem le_self_of_lt {x y : Float32} (h : x < y) : x ≤ x ∧ y ≤ y := by
  obtain ⟨hx, hy⟩ := isNaN_of_lt ((lt_iff32 x y).mp h)
  exact ⟨le_self_iff.mpr hx, le_self_iff.mpr hy⟩

theorem lt_of_lt_of_le32 {x y z : Float32} (h : x < y) (h' : y ≤ z) : x < z := by
  obtain ⟨hx, hy⟩ := le_self_of_lt h
  obtain ⟨-, hz⟩ := le_self_of_le h'
  rw [lt_iff_key hx hy] at h
  rw [le_iff_key hy hz] at h'
  rw [lt_iff_key hx hz]
  exact h.trans_le h'

theorem lt_of_le_of_lt32 {x y z : Float32} (h : x ≤ y) (h' : y < z) : x < z := by
  obtain ⟨hx, hy⟩ := le_self_of_le h
  obtain ⟨-, hz⟩ := le_self_of_lt h'
  rw [le_iff_key hx hy] at h
  rw [lt_iff_key hy hz] at h'
  rw [lt_iff_key hx hz]
  exact h.trans_lt h'

/-! ## On `f64` -/

theorem le_iff_key64 {x y : Float} (hx : x.isNaN = false) (hy : y.isNaN = false) :
    x ≤ y ↔ key x.toModel.unpack ≤ key y.toModel.unpack := by
  rw [le_iff]
  exact le_iff_key_of_unpacked hx hy

theorem le_total64 {x y : Float} (hx : x.isNaN = false) (hy : y.isNaN = false) :
    x ≤ y ∨ y ≤ x := by
  rw [le_iff_key64 hx hy, le_iff_key64 hy hx]
  exact le_total _ _

theorem le_trans64 {x y z : Float} (h : x ≤ y) (h' : y ≤ z) : x ≤ z := by
  obtain ⟨hx, hy⟩ := isNaN_of_le ((le_iff x y).mp h)
  obtain ⟨-, hz⟩ := isNaN_of_le ((le_iff y z).mp h')
  rw [le_iff_key64 hx hy] at h
  rw [le_iff_key64 hy hz] at h'
  rw [le_iff_key64 hx hz]
  exact h.trans h'

end FloatText

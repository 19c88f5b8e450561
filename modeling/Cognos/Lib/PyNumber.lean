/-
# `Cognos.Lib.PyNumber` — Python numbers, and the least and greatest of two

Integers and floats compare by what they are exactly; what is no number is neither below nor
above anything.  `min` and `max` keep their first argument unless the second one is better.

    place              where a number is, from minus to plus infinity
    unit_clampUnit     what is clamped from zero to one is there
-/
import Mathlib
import Cognos.Lib.PyValue
import Cognos.Lib.FloatUnit

namespace Py

open Float.Model (UnpackedFloat)

/-- An `int` (or a `bool`, which is one) or a `float`. -/
inductive Number
  | int (n : Int)
  | float (x : Float)

namespace Number

/-- The number that a value is. -/
def ofValue : Value → Option Number
  | .bool b => some (.int (if b then 1 else 0))
  | .int n => some (.int n)
  | .float x => some (.float x)
  | _ => none

/-- Where a float is: `m * 2 ^ e`, or infinite. -/
def floatPlace : UnpackedFloat → Option (WithBot (WithTop ℚ))
  | .zero _ => some ((0 : ℚ) : WithTop ℚ)
  | .finite .positive m e _ => some (((m : ℚ) * 2 ^ e : ℚ) : WithTop ℚ)
  | .finite .negative m e _ => some ((-((m : ℚ) * 2 ^ e) : ℚ) : WithTop ℚ)
  | .infinity .positive => some ⊤
  | .infinity .negative => some ⊥
  | .notANumber => none

def place : Number → Option (WithBot (WithTop ℚ))
  | int n => some ((n : ℚ) : WithTop ℚ)
  | float x => floatPlace x.toModel.unpack

/-- `a < b`. -/
def Lt (a b : Number) : Prop := ∃ p ∈ a.place, ∃ q ∈ b.place, p < q

instance (a b : Number) : Decidable (a.Lt b) :=
  inferInstanceAs (Decidable (∃ p ∈ a.place, ∃ q ∈ b.place, p < q))

/-- `min(a, b)`. -/
def min (a b : Number) : Number := if b.Lt a then b else a

/-- `max(a, b)`. -/
def max (a b : Number) : Number := if a.Lt b then b else a

/-- `max(0.0, min(1.0, a))`. -/
def clampUnit (a : Number) : Number := (float 0).max ((float 1).min a)

/-- The number is from zero to one. -/
def Unit (a : Number) : Prop := ∃ q : ℚ, a.place = some ((q : WithTop ℚ) : WithBot (WithTop ℚ)) ∧
  0 ≤ q ∧ q ≤ 1

theorem place_zero : (float 0).place = some ((0 : ℚ) : WithTop ℚ) := rfl

theorem place_one : (float 1).place = some ((1 : ℚ) : WithTop ℚ) := by
  show floatPlace (1 : Float).toModel.unpack = _
  rw [FloatText.unpack_one]
  norm_num [floatPlace]

/-- Nothing above one is the least of one and another number, and the least is a number. -/
theorem place_min_one (a : Number) : ∃ p ∈ ((float 1).min a).place, p ≤ ((1 : ℚ) : WithTop ℚ) := by
  unfold min
  split_ifs with h
  · obtain ⟨p, hp, q, hq, hlt⟩ := h
    rw [place_one] at hq
    rw [← Option.some.inj hq] at hlt
    exact ⟨p, hp, hlt.le⟩
  · exact ⟨_, place_one, le_rfl⟩

theorem unit_clampUnit (a : Number) : a.clampUnit.Unit := by
  obtain ⟨p, hp, hle⟩ := place_min_one a
  unfold clampUnit max
  split_ifs with h
  · obtain ⟨z, hz, p', hp', hlt⟩ := h
    rw [place_zero] at hz
    rw [← Option.some.inj hz] at hlt
    obtain rfl : p' = p := Option.some.inj (hp'.symm.trans hp)
    -- between two rationals there is neither infinity
    cases p' with
    | bot => exact absurd hlt not_lt_bot
    | coe t =>
        cases t with
        | top => exact absurd (WithBot.coe_le_coe.mp hle) (by simp)
        | coe q =>
            refine ⟨q, hp, ?_, ?_⟩
            · exact (WithTop.coe_lt_coe.mp (WithBot.coe_lt_coe.mp hlt)).le
            · exact WithTop.coe_le_coe.mp (WithBot.coe_le_coe.mp hle)
  · exact ⟨0, place_zero, le_rfl, zero_le_one⟩

end Number

end Py

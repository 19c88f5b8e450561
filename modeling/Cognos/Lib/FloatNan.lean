/-
# `Cognos.Lib.FloatNan` — sums and differences that are numbers

A sum or a difference with a finite float is not a number exactly when the other term is not:
nothing that is a number is rounded or packed to a NaN, however large it is.  Clamping leaves a
NaN one, and brings every number between the two bounds.

    isNaN_pack               what is packed is a NaN when it is unpacked if it was one before
    isNaN_add, isNaN_sub     sums and differences with a finite float
    unit_clamp_iff           what clamping brings between zero and one
-/
import Mathlib
import Cognos.Lib.FloatOrder

namespace FloatText

open Float.Model (Format UnpackedFloat)
open Float.Model.UnpackedFloat

/-! ## Packing -/

/-- Only the largest exponent makes a NaN, and only with a mantissa. -/
theorem isNaN_unpack_components {f : Format} {s : Sign} {e : BitVec f.exponentBits}
    {m : BitVec f.mantissaBitsWithoutImplicit} (h : e = -1#_ → m = 0#_) :
    (unpack f (packComponents f s e m)).isNaN = false := by
  unfold UnpackedFloat.unpack
  simp only [unpackMantissa_packComponents, unpackExponent_packComponents]
  by_cases hexp : e = -1#_
  · rw [if_pos hexp, if_pos (h hexp)]
    rfl
  · rw [if_neg hexp]
    by_cases hzero : e = 0#_
    · rw [if_pos hzero]
      split <;> rfl
    · rw [if_neg hzero]
      rfl

theorem isNaN_pack (u : UnpackedFloat) :
    (unpack Format.binary32 (pack Format.binary32 u)).isNaN = u.isNaN := by
  have hzero : (BitVec.ofNat Format.binary32.exponentBits 0) = -1#_ → False := by decide
  cases u with
  | notANumber => rfl
  | infinity s => exact isNaN_unpack_components fun _ => rfl
  | zero s => exact isNaN_unpack_components fun h => (hzero h).elim
  | finite s m e hm =>
      show (unpack _ (if 2 ^ 8 ≤ (e + (127 : Nat) + (23 : Nat)).toNat + 1 then _
        else if m.log2 + 1 = 24 then _ else _)).isNaN = false
      split_ifs with hlarge hnormal
      · exact isNaN_unpack_components fun _ => rfl
      · refine isNaN_unpack_components fun heq => ?_
        have hmax : (-BitVec.ofNat Format.binary32.exponentBits 1).toNat = 255 := rfl
        have hnat := congrArg BitVec.toNat heq
        rw [hmax] at hnat
        change (BitVec.ofNat 8 (e + (127 : Nat) + (23 : Nat)).toNat).toNat = 255 at hnat
        rw [BitVec.toNat_ofNat] at hnat
        omega
      · exact isNaN_unpack_components fun h => (hzero h).elim

/-! ## Rounding -/

theorem isNaN_round (f : Format) (s : Sign) (m : Nat) (e : Int) :
    (UnpackedFloat.round f s m e).isNaN = false := by
  unfold UnpackedFloat.round roundWithAccuracy
  dsimp only
  split <;> rfl

theorem isNaN_normalize (f : Format) (m e : Int) (s : Sign) :
    (UnpackedFloat.normalize f m e s).isNaN = false := by
  unfold UnpackedFloat.normalize
  split
  · exact isNaN_round _ _ _ _
  · rfl
  · exact isNaN_round _ _ _ _

/-! ## Sums and differences -/

section Terms

variable {u v : UnpackedFloat}

theorem isNaN_subUnpacked (hu : u.isFinite = true) :
    (UnpackedFloat.sub Format.binary32 u v).isNaN = v.isNaN := by
  cases u with
  | infinity s => cases hu
  | notANumber => cases hu
  | zero s =>
      cases v with
      | zero s' => cases s <;> cases s' <;> rfl
      | _ => rfl
  | finite s m e hm =>
      cases v with
      | finite s' m' e' hm' => exact isNaN_normalize _ _ _ _
      | _ => rfl

theorem isNaN_addUnpacked (hu : u.isFinite = true) :
    (UnpackedFloat.add Format.binary32 u v).isNaN = v.isNaN := by
  cases u with
  | infinity s => cases hu
  | notANumber => cases hu
  | zero s =>
      cases v with
      | zero s' => cases s <;> cases s' <;> rfl
      | _ => rfl
  | finite s m e hm =>
      cases v with
      | finite s' m' e' hm' => exact isNaN_normalize _ _ _ _
      | _ => rfl

end Terms

section Numbers

variable {x y : Float32}

theorem isFinite_of_unit32 (h : 0 ≤ x ∧ x ≤ 1) : x.isFinite = true := by
  rw [← unit_iff32] at h
  show x.toModel.unpack.isFinite = true
  generalize x.toModel.unpack = u at h
  cases u with
  | infinity s => exact h.elim
  | notANumber => exact h.elim
  | zero s => rfl
  | finite s m e hm => rfl

theorem isNaN_sub (hx : x.isFinite = true) : (x - y).isNaN = y.isNaN := by
  show (unpack Format.binary32 (pack Format.binary32 (UnpackedFloat.sub Format.binary32
    x.toModel.unpack y.toModel.unpack))).isNaN = _
  rw [isNaN_pack]
  exact isNaN_subUnpacked hx

theorem isNaN_add (hx : x.isFinite = true) : (x + y).isNaN = y.isNaN := by
  show (unpack Format.binary32 (pack Format.binary32 (UnpackedFloat.add Format.binary32
    x.toModel.unpack y.toModel.unpack))).isNaN = _
  rw [isNaN_pack]
  exact isNaN_addUnpacked hx

/-! ## Clamping -/

/-- `x.clamp(0.0, 1.0)`. -/
def clampUnit32 (x : Float32) : Float32 := if x < 0 then 0 else if 1 < x then 1 else x

/-- Every number is brought between zero and one, and nothing else is. -/
theorem unit_clamp_iff : (0 ≤ clampUnit32 x ∧ clampUnit32 x ≤ 1) ↔ x.isNaN = false := by
  have hzero : (0 : Float32) ≤ 0 ∧ (0 : Float32) ≤ 1 ∧ (1 : Float32) ≤ 1 := by decide
  obtain ⟨hzero, hbelow, hone⟩ := hzero
  rw [← le_self_iff, clampUnit32]
  by_cases hlow : x < 0
  · rw [if_pos hlow]
    exact iff_of_true ⟨hzero, hbelow⟩ (le_self_of_lt hlow).1
  · rw [if_neg hlow]
    by_cases hhigh : 1 < x
    · rw [if_pos hhigh]
      exact iff_of_true ⟨hbelow, hone⟩ (le_self_of_lt hhigh).2
    · rw [if_neg hhigh]
      constructor
      · intro h
        exact (le_self_of_le h.2).1
      · intro h
        exact ⟨(not_lt_iff32 h hzero).mp hlow, (not_lt_iff32 hone h).mp hhigh⟩

end Numbers

end FloatText

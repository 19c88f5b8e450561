/-
# `Cognos.Lib.FloatUnit` — floats from zero to one

`x as f32` of an `f64`, which rounds to the nearest, `x.clamp(0.0, 1.0)`, and the floats
from zero to one.

    unit_iff       they are told by sign, significand and exponent (`InUnit`)
    unit_clamp01   clamping leads there, from every number
    unit_narrow    rounding stays there: below one, it carries at most up to one
    lt_iff_rank    there they compare as exponent and significand do
-/
import Mathlib
import Cognos.Lib.FloatText

namespace FloatText

open Float.Model (Format UnpackedFloat totalExponent)
open Float.Model.UnpackedFloat

/-! ## Operations -/

/-- `x as f32`. -/
def narrow (x : Float) : Float32 :=
  .ofModel (.pack (match x.toModel.unpack with
    | .finite s m e _ => .round Format.binary32 s m e
    | u => u))

/-- `x.clamp(0.0, 1.0)`. -/
def clamp01 (x : Float) : Float :=
  let x := if x < 0 then 0 else x
  if 1 < x then 1 else x

/-! ## Comparing with zero and one -/

/-- From zero to one, in a format with `p` bits behind the leading one. -/
def InUnit (p : Nat) : UnpackedFloat → Prop
  | .zero _ => True
  | .finite .positive m e _ => e < -(p : Int) ∨ e = -(p : Int) ∧ m ≤ 2 ^ p
  | _ => False

theorem unpack_zero : (0 : Float).toModel.unpack = .zero .positive := rfl

theorem unpack_one : (1 : Float).toModel.unpack =
    .finite .positive (2 ^ 52) (-52) (by decide) := rfl

theorem unpack_zero32 : (0 : Float32).toModel.unpack = .zero .positive := rfl

theorem unpack_one32 : (1 : Float32).toModel.unpack =
    .finite .positive (2 ^ 23) (-23) (by decide) := rfl

theorem le_iff (x y : Float) : x ≤ y ↔ x.toModel.unpack.le y.toModel.unpack = true :=
  decide_eq_true_iff

theorem lt_iff (x y : Float) : x < y ↔ x.toModel.unpack.lt y.toModel.unpack = true :=
  decide_eq_true_iff

theorem le_iff32 (x y : Float32) : x ≤ y ↔ x.toModel.unpack.le y.toModel.unpack = true :=
  decide_eq_true_iff

theorem inUnit_iff_bounds (p : Nat) (u : UnpackedFloat) (h : 0 < 2 ^ p) :
    InUnit p u ↔ (UnpackedFloat.zero .positive).le u = true ∧
      u.le (.finite .positive (2 ^ p) (-(p : Int)) h) = true := by
  cases u with
  | infinity s => cases s <;> simp [InUnit, UnpackedFloat.le, UnpackedFloat.compare, Ordering.isLE]
  | notANumber => simp [InUnit, UnpackedFloat.le, UnpackedFloat.compare]
  | zero s => simp [InUnit, UnpackedFloat.le, UnpackedFloat.compare, Ordering.isLE]
  | finite s m e hm =>
      cases s with
      | negative => simp [InUnit, UnpackedFloat.le, UnpackedFloat.compare, Ordering.isLE]
      | positive =>
          simp only [InUnit, UnpackedFloat.le, UnpackedFloat.compare, Option.any_some,
            Ordering.isLE_then_iff_or, Int.compare_eq_lt, Int.compare_eq_eq, Nat.isLE_compare]
          exact ⟨fun h => ⟨rfl, h⟩, fun h => h.2⟩

theorem unit_iff (x : Float) : InUnit 52 x.toModel.unpack ↔ 0 ≤ x ∧ x ≤ 1 := by
  rw [le_iff, le_iff, unpack_one, unpack_zero]
  exact inUnit_iff_bounds 52 _ _

theorem unit_iff32 (x : Float32) : InUnit 23 x.toModel.unpack ↔ 0 ≤ x ∧ x ≤ 1 := by
  rw [le_iff32, le_iff32, unpack_one32, unpack_zero32]
  exact inUnit_iff_bounds 23 _ _

/-- A number that is neither below zero nor above one is between them. -/
theorem unit_of_not_lt {x : Float} (h : x.isNaN = false) (hlow : ¬ x < 0) (hhigh : ¬ 1 < x) :
    0 ≤ x ∧ x ≤ 1 := by
  rw [lt_iff, unpack_zero] at hlow
  rw [lt_iff, unpack_one] at hhigh
  rw [← unit_iff]
  change x.toModel.unpack.isNaN = false at h
  generalize x.toModel.unpack = u at h hlow hhigh
  cases u with
  | infinity s =>
      cases s with
      | negative => exact absurd rfl hlow
      | positive => exact absurd rfl hhigh
  | notANumber => cases h
  | zero s => exact True.intro
  | finite s m e hm =>
      cases s with
      | negative => exact absurd rfl hlow
      | positive =>
          simp only [UnpackedFloat.lt, UnpackedFloat.compare, beq_iff_eq, Option.some.injEq,
            Ordering.then_eq_lt, Int.compare_eq_lt, Int.compare_eq_eq, Nat.compare_eq_lt,
            not_or, not_and, not_lt] at hhigh
          obtain ⟨hle, hm⟩ := hhigh
          rcases lt_or_eq_of_le hle with he | he
          · exact Or.inl he
          · exact Or.inr ⟨he, hm he.symm⟩

theorem unit_clamp01 {x : Float} (h : x.isNaN = false) : 0 ≤ clamp01 x ∧ clamp01 x ≤ 1 := by
  have hzero : (0 : Float) ≤ 0 ∧ (0 : Float) ≤ 1 := by decide
  have hone : (0 : Float) ≤ 1 ∧ (1 : Float) ≤ 1 := by decide
  have hnot : ¬ (1 : Float) < 0 := by decide
  simp only [clamp01]
  split_ifs with hlow hhigh
  · exact hzero
  · exact hone
  · exact unit_of_not_lt h hlow hhigh

/-- Clamping leaves alone what is from zero to one. -/
theorem clamp01_of_unit {x : Float} (h : 0 ≤ x ∧ x ≤ 1) : clamp01 x = x := by
  rw [← unit_iff] at h
  have hlow : ¬ x < 0 := by
    rw [lt_iff, unpack_zero]
    generalize x.toModel.unpack = u at h
    cases u with
    | infinity s => exact h.elim
    | notANumber => exact h.elim
    | zero s => exact Bool.false_ne_true
    | finite s m e hm =>
        cases s with
        | negative => exact h.elim
        | positive => exact Bool.false_ne_true
  have hhigh : ¬ 1 < x := by
    rw [lt_iff, unpack_one]
    generalize x.toModel.unpack = u at h
    cases u with
    | infinity s => exact h.elim
    | notANumber => exact h.elim
    | zero s => exact Bool.false_ne_true
    | finite s m e hm =>
        cases s with
        | negative => exact h.elim
        | positive =>
            simp only [UnpackedFloat.lt, UnpackedFloat.compare, beq_iff_eq, Option.some.injEq,
              Ordering.then_eq_lt, Int.compare_eq_lt, Int.compare_eq_eq, Nat.compare_eq_lt,
              not_or, not_and, not_lt]
            rcases h with he | ⟨he, hm⟩
            · exact ⟨by omega, fun heq => by omega⟩
            · exact ⟨by omega, fun _ => hm⟩
  simp only [clamp01, if_neg hlow, if_neg hhigh]

/-! ## Order -/

/-- What orders the floats from zero to one: zero first, then by exponent and significand. -/
def rank : UnpackedFloat → WithBot (ℤ ×ₗ ℕ)
  | .finite _ m e _ => ↑(toLex (e, m))
  | _ => ⊥

theorem then_eq_cmp (e f : ℤ) (m n : ℕ) : (compare e f).then (compare m n) =
    cmp (↑(toLex (e, m)) : WithBot (ℤ ×ₗ ℕ)) ↑(toLex (f, n)) := by
  rcases lt_trichotomy (toLex (e, m)) (toLex (f, n)) with hlt | heq | hgt
  · rw [(cmp_eq_lt_iff _ _).mpr (WithBot.coe_lt_coe.mpr hlt), Ordering.then_eq_lt,
      Int.compare_eq_lt, Int.compare_eq_eq, Nat.compare_eq_lt]
    exact Prod.Lex.toLex_lt_toLex.mp hlt
  · obtain ⟨rfl, rfl⟩ := Prod.mk.inj (toLex.injective heq)
    rw [cmp_self_eq_eq, Ordering.then_eq_eq]
    exact ⟨Int.compare_eq_eq.mpr rfl, Nat.compare_eq_eq.mpr rfl⟩
  · rw [(cmp_eq_gt_iff _ _).mpr (WithBot.coe_lt_coe.mpr hgt), Ordering.then_eq_gt,
      Int.compare_eq_gt, Int.compare_eq_eq, Nat.compare_eq_gt]
    rcases Prod.Lex.toLex_lt_toLex.mp hgt with h | ⟨h, h'⟩
    · exact .inl h
    · exact .inr ⟨h.symm, h'⟩

theorem compare_eq_cmp {p : Nat} {u v : UnpackedFloat} (hu : InUnit p u) (hv : InUnit p v) :
    u.compare v = some (cmp (rank u) (rank v)) := by
  cases u with
  | infinity s => exact hu.elim
  | notANumber => exact hu.elim
  | zero s =>
      cases v with
      | infinity t => exact hv.elim
      | notANumber => exact hv.elim
      | zero t => exact congrArg some (cmp_self_eq_eq _).symm
      | finite t n f hn =>
          cases t with
          | negative => exact hv.elim
          | positive => exact congrArg some ((cmp_eq_lt_iff _ _).mpr (WithBot.bot_lt_coe _)).symm
  | finite s m e hm =>
      cases s with
      | negative => exact hu.elim
      | positive =>
          cases v with
          | infinity t => exact hv.elim
          | notANumber => exact hv.elim
          | zero t => exact congrArg some ((cmp_eq_gt_iff _ _).mpr (WithBot.bot_lt_coe _)).symm
          | finite t n f hn =>
              cases t with
              | negative => exact hv.elim
              | positive => exact congrArg some (then_eq_cmp e f m n)

theorem lt_iff32 (x y : Float32) : x < y ↔ x.toModel.unpack.lt y.toModel.unpack = true :=
  decide_eq_true_iff

/-- From zero to one, floats compare as their ranks. -/
theorem lt_iff_rank {x y : Float32} (hx : 0 ≤ x ∧ x ≤ 1) (hy : 0 ≤ y ∧ y ≤ 1) :
    x < y ↔ rank x.toModel.unpack < rank y.toModel.unpack := by
  rw [lt_iff32, UnpackedFloat.lt, compare_eq_cmp ((unit_iff32 x).mpr hx) ((unit_iff32 y).mpr hy),
    beq_iff_eq, Option.some.injEq, cmp_eq_lt_iff]

theorem le_iff_rank {x y : Float32} (hx : 0 ≤ x ∧ x ≤ 1) (hy : 0 ≤ y ∧ y ≤ 1) :
    x ≤ y ↔ rank x.toModel.unpack ≤ rank y.toModel.unpack := by
  rw [le_iff32, UnpackedFloat.le, compare_eq_cmp ((unit_iff32 x).mpr hx) ((unit_iff32 y).mpr hy),
    Option.any_some, Ordering.isLE_iff_ne_gt, cmp_eq_gt_iff, not_lt]

/-! ## Packing -/

/-- At most one, in 24 bits, with the exponent that rounding aims at. -/
def Small : UnpackedFloat → Prop
  | .zero _ => True
  | .finite .positive m e _ => -149 ≤ e ∧ m < 2 ^ 24 ∧ (e = -149 ∨ 2 ^ 23 ≤ m) ∧
      (e < -23 ∨ e = -23 ∧ m ≤ 2 ^ 23)
  | _ => False

theorem unpackSign_packComponents {f : Format} (s : Sign) (e : BitVec f.exponentBits)
    (m : BitVec f.mantissaBitsWithoutImplicit) :
    unpackSign (packComponents f s e m) = s.toBitVec := by
  apply BitVec.eq_of_getLsbD_eq
  intro i hi
  obtain rfl : i = 0 := by omega
  simp [unpackSign, packComponents, BitVec.getLsbD_append, BitVec.getElem_append]

theorem inUnit_unpack_components {e : BitVec 8} {m : BitVec 23}
    (he : e.toNat < 127 ∨ e.toNat = 127 ∧ m = 0) :
    InUnit 23 (unpack Format.binary32 (packComponents Format.binary32 .positive e m)) := by
  unfold UnpackedFloat.unpack
  simp only [unpackMantissa_packComponents, unpackExponent_packComponents,
    unpackSign_packComponents]
  have hne : e ≠ -1#_ := by
    rintro rfl
    revert he
    simp
  rw [if_neg hne]
  split_ifs with hzero hm
  · exact True.intro
  · subst hzero
    exact Or.inl (by decide)
  · rcases he with he | ⟨he, rfl⟩
    · left
      show (e.toNat : Int) - (127 + 23) < -23
      omega
    · right
      refine ⟨?_, by decide⟩
      show (e.toNat : Int) - (127 + 23) = -23
      omega

theorem inUnit_pack {u : UnpackedFloat} (h : Small u) :
    InUnit 23 (unpack Format.binary32 (pack Format.binary32 u)) := by
  cases u with
  | infinity s => exact h.elim
  | notANumber => exact h.elim
  | zero s => cases s <;> exact True.intro
  | finite s m e hm =>
      cases s with
      | negative => exact h.elim
      | positive =>
          obtain ⟨hlow, hm24, hnormal, hle⟩ := h
          obtain ⟨b, hb⟩ : ∃ b : Nat, e = b - 150 := ⟨(e + 150).toNat, by omega⟩
          have hbias : (e + (127 : Nat) + (23 : Nat)).toNat = b := by omega
          have hexp : (BitVec.ofNat 8 b).toNat = b := by
            rw [BitVec.toNat_ofNat]
            omega
          show InUnit 23 (unpack _ (if 2 ^ 8 ≤ (e + (127 : Nat) + (23 : Nat)).toNat + 1 then _
            else if m.log2 + 1 = 24 then _ else _))
          rw [hbias, if_neg (by omega)]
          split_ifs with hlog
          · refine inUnit_unpack_components ?_
            show (BitVec.ofNat 8 (e + (127 : Nat) + (23 : Nat)).toNat).toNat < 127 ∨
              (BitVec.ofNat 8 (e + (127 : Nat) + (23 : Nat)).toNat).toNat = 127 ∧
                BitVec.ofNat 23 m = 0
            rw [hbias, hexp]
            rcases hle with hle | ⟨heq, hle⟩
            · left
              omega
            · right
              have hge : 2 ^ 23 ≤ m := by
                rcases hnormal with hnormal | hnormal
                · omega
                · exact hnormal
              obtain rfl : m = 2 ^ 23 := by omega
              exact ⟨by omega, by decide⟩
          · exact inUnit_unpack_components (Or.inl (by decide))

/-! ## Rounding -/

theorem mantissa_shift (em : ExtendedMantissa) (k : Nat) :
    (em >>> k).mantissa = em.mantissa / 2 ^ k := by
  induction k with
  | zero => exact (Nat.div_one _).symm
  | succ k ih =>
      show (em >>> k).mantissa / 2 = _
      rw [ih, Nat.div_div_eq_div_mul, pow_succ]

theorem roundedMantissa_bounds (em : ExtendedMantissa) :
    em.mantissa ≤ em.roundedMantissa ∧ em.roundedMantissa ≤ em.mantissa + 1 := by
  obtain ⟨m, r, s⟩ := em
  cases r <;> cases s
  all_goals
    simp only [ExtendedMantissa.roundedMantissa, ExtendedMantissa.accuracy,
      Accuracy.roundToNearestEven]
    omega

theorem target_eq (m : Nat) (e : Int) : Format.binary32.targetExponent (totalExponent m e) =
    max (m.log2 + 1 + e - 24) (-149) := rfl

theorem shiftToTargetExponent_eq (m : Nat) (e : Int) :
    (shiftToTargetExponent Format.binary32 m e .exact).1.mantissa =
        m / 2 ^ (max (m.log2 + 1 + e - 24) (-149) - e).toNat ∧
      (shiftToTargetExponent Format.binary32 m e .exact).2 =
        e + (max (m.log2 + 1 + e - 24) (-149) - e).toNat :=
  ⟨mantissa_shift _ _, rfl⟩

/-- A rounded significand of up to 24 bits, one more after a carry, and the exponent it gets. -/
theorem small_carry {r : Nat} {t : Int} (hr : r ≤ 2 ^ 24) (hnormal : t = -149 ∨ 2 ^ 23 ≤ r)
    (hlow : -149 ≤ t) (hhigh : t ≤ -24)
    (h : (shiftToTargetExponent Format.binary32 r t .exact).1.mantissa ≠ 0) :
    Small (.finite .positive (shiftToTargetExponent Format.binary32 r t .exact).1.mantissa
      (shiftToTargetExponent Format.binary32 r t .exact).2 (Nat.pos_of_ne_zero h)) := by
  obtain ⟨hmant, hexp⟩ := shiftToTargetExponent_eq r t
  simp only [Small]
  rw [hmant, hexp]
  rcases Nat.lt_or_ge r (2 ^ 24) with hlt | hge
  · have hlog : r.log2 < 24 := by
      rcases Nat.eq_zero_or_pos r with rfl | hpos
      · exact Nat.zero_lt_succ 23
      · exact (Nat.log2_lt hpos.ne').mpr hlt
    rw [show (max (r.log2 + 1 + t - 24) (-149) - t).toNat = 0 by omega, pow_zero, Nat.div_one]
    exact ⟨by omega, hlt, by omega, Or.inl (by omega)⟩
  · obtain rfl : r = 2 ^ 24 := by omega
    rw [Nat.log2_two_pow,
      show (max (((24 : Nat) : Int) + 1 + t - 24) (-149) - t).toNat = 1 by omega]
    exact ⟨by omega, by decide, Or.inr (by decide), by omega⟩

/-- A number below one, with no fewer bits than fit: rounded, it is at most one. -/
theorem small_roundWithAccuracy {m : Nat} {e : Int} (hm : 0 < m) (hone : m.log2 + 1 + e ≤ 0)
    (he : e ≤ max (m.log2 + 1 + e - 24) (-149)) :
    Small (roundWithAccuracy Format.binary32 .positive m e .exact) := by
  obtain ⟨hmant, hexp⟩ := shiftToTargetExponent_eq m e
  generalize hfirst : shiftToTargetExponent Format.binary32 m e .exact = first at hmant hexp
  obtain ⟨em, t⟩ := first
  simp only at hmant hexp
  obtain ⟨k, hk⟩ : ∃ k : Nat, max (m.log2 + 1 + e - 24) (-149) = e + k :=
    ⟨(max (m.log2 + 1 + e - 24) (-149) - e).toNat, by omega⟩
  rw [hk, show (e + k - e).toNat = k by omega] at hmant hexp
  have hupper : em.mantissa < 2 ^ 24 := by
    rw [hmant, Nat.div_lt_iff_lt_mul (Nat.two_pow_pos k), ← pow_add]
    exact Nat.lt_log2_self.trans_le (Nat.pow_le_pow_right (by decide) (by omega))
  have hlower : t = -149 ∨ 2 ^ 23 ≤ em.mantissa := by
    by_cases ht : t = -149
    · exact Or.inl ht
    · right
      rw [hmant, Nat.le_div_iff_mul_le (Nat.two_pow_pos k), ← pow_add,
        show 23 + k = m.log2 by omega]
      exact Nat.log2_self_le hm.ne'
  have hround := roundedMantissa_bounds em
  unfold roundWithAccuracy
  rw [hfirst]
  simp only
  split_ifs with hzero
  · exact True.intro
  · refine small_carry (by omega) ?_ (by omega) (by omega) hzero
    rcases hlower with ht | hge
    · exact Or.inl ht
    · exact Or.inr (hge.trans hround.1)

/-- Below one, rounding stays at most one. -/
theorem small_round {m : Nat} {e : Int} (hm : 0 < m) (hone : m.log2 + 1 + e ≤ 0) :
    Small (round Format.binary32 .positive m e) := by
  unfold UnpackedFloat.round
  simp only [decreaseExponent, target_eq]
  generalize hs : (e - max (m.log2 + 1 + e - 24) (-149)).toNat = s
  have hpos : 0 < m * 2 ^ s := Nat.mul_pos hm (Nat.two_pow_pos s)
  have hlog : (m <<< s).log2 = m.log2 + s := by
    rw [Nat.shiftLeft_eq, Nat.log2_eq_iff hpos.ne']
    refine ⟨?_, ?_⟩
    · rw [pow_add]
      exact Nat.mul_le_mul_right _ (Nat.log2_self_le hm.ne')
    · rw [show m.log2 + s + 1 = m.log2 + 1 + s by omega, pow_add]
      exact Nat.mul_lt_mul_of_pos_right Nat.lt_log2_self (Nat.two_pow_pos s)
  refine small_roundWithAccuracy ?_ ?_ ?_
  · rw [Nat.shiftLeft_eq]
    exact hpos
  · rw [hlog]
    push_cast
    omega
  · rw [hlog]
    push_cast
    omega

theorem mantissa_lt {b : BitVec Format.binary64.numBits} {s m e h}
    (hu : unpack Format.binary64 b = .finite s m e h) : m < 2 ^ 53 := by
  unfold UnpackedFloat.unpack at hu
  simp only at hu
  split_ifs at hu with h₁ h₂ h₃ h₄
  · obtain ⟨-, rfl, -⟩ := UnpackedFloat.finite.inj hu
    exact lt_trans (BitVec.isLt _) (by decide)
  · obtain ⟨-, rfl, -⟩ := UnpackedFloat.finite.inj hu
    exact BitVec.isLt _

/-- A number from zero to one is still there as an `f32`. -/
theorem unit_narrow {x : Float} (h : 0 ≤ x ∧ x ≤ 1) : 0 ≤ narrow x ∧ narrow x ≤ 1 := by
  rw [← unit_iff] at h
  rw [← unit_iff32]
  refine inUnit_pack ?_
  generalize hu : x.toModel.unpack = u at h
  cases u with
  | infinity s => exact h.elim
  | notANumber => exact h.elim
  | zero s => exact True.intro
  | finite s m e hm =>
      cases s with
      | negative => exact h.elim
      | positive =>
          have hlt : m < 2 ^ 53 := mantissa_lt hu
          by_cases hone : m = 2 ^ 52 ∧ e = -52
          · obtain ⟨rfl, rfl⟩ := hone
            show Small (.finite .positive (2 ^ 23) (-23) (by decide))
            exact ⟨by decide, by decide, by decide, by decide⟩
          · refine small_round hm ?_
            rcases h with he | ⟨he, hle⟩
            · have hlog : m.log2 < 53 := (Nat.log2_lt hm.ne').mpr hlt
              omega
            · have hlog : m.log2 < 52 := by
                rw [Nat.log2_lt hm.ne']
                omega
              omega

end FloatText

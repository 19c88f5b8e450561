/-
# `Cognos.Lib.FloatDifference` — a float less another one

Below one, a positive float from which another one is taken becomes less, as long as the
other one is not lost in the rounding: more than two units in the last place of the first.

    round_bounds      what rounding makes of a number with 24 bits at least
    unpack_pack       a rounded number is what it is unpacked as
    unpack_sub        the difference, unpacked
    lower_twentieth   from a tenth to one, a twentieth makes a difference
-/
import Mathlib
import Cognos.Lib.FloatUnit

namespace FloatText

open Float.Model (Format UnpackedFloat totalExponent)
open Float.Model.UnpackedFloat

/-! ## Rounding -/

/-- `r * 2 ^ t` is a float with all its 24 bits. -/
structure Normal (r : Nat) (t : Int) : Prop where
  low : 2 ^ 23 ≤ r
  high : r < 2 ^ 24
  exponent : -149 ≤ t

/-- What `n * 2 ^ e` is rounded to: the quotient to 24 bits, or the next number. -/
theorem round_bounds {n : Nat} {e : Int} (hn : 2 ^ 23 ≤ n) (he : -149 ≤ e) :
    ∃ q r t, ∃ h : 0 < r, q = n / 2 ^ (n.log2 - 23) ∧
      round Format.binary32 .positive n e = .finite .positive r t h ∧ Normal r t ∧
      ((q ≤ r ∧ r ≤ q + 1 ∧ t = e + (n.log2 - 23 : Nat)) ∨
        (q + 1 = 2 ^ 24 ∧ r = 2 ^ 23 ∧ t = e + (n.log2 - 23 : Nat) + 1)) := by
  have hpos : n ≠ 0 := by omega
  have hlog : 23 ≤ n.log2 := (Nat.le_log2 hpos).mpr hn
  obtain ⟨s, hs⟩ : ∃ s, n.log2 = 23 + s := ⟨n.log2 - 23, by omega⟩
  have hself := Nat.log2_self_le hpos
  have hlt : n < 2 ^ (n.log2 + 1) := Nat.lt_log2_self
  rw [hs] at hself hlt
  have hq : 2 ^ 23 ≤ n / 2 ^ s := by
    rw [Nat.le_div_iff_mul_le (Nat.two_pow_pos s), ← pow_add]
    exact hself
  have hq' : n / 2 ^ s < 2 ^ 24 := by
    rw [Nat.div_lt_iff_lt_mul (Nat.two_pow_pos s), ← pow_add, show 24 + s = 23 + s + 1 by omega]
    exact hlt
  -- the first shift
  obtain ⟨hmant, hexp⟩ := shiftToTargetExponent_eq n e
  rw [hs, show (max (((23 + s : Nat) : Int) + 1 + e - 24) (-149) - e).toNat = s by omega]
    at hmant hexp
  generalize hfirst : shiftToTargetExponent Format.binary32 n e .exact = first at hmant hexp
  obtain ⟨em, t⟩ := first
  simp only at hmant hexp
  have hround := roundedMantissa_bounds em
  rw [hmant] at hround
  have hdecrease : round Format.binary32 .positive n e
      = roundWithAccuracy Format.binary32 .positive n e .exact := by
    unfold UnpackedFloat.round
    simp only [decreaseExponent, target_eq, hs]
    rw [show (e - max (((23 + s : Nat) : Int) + 1 + e - 24) (-149)).toNat = 0 by omega]
    simp
  -- the second one, which does nothing except after a carry
  obtain ⟨hmant', hexp'⟩ := shiftToTargetExponent_eq em.roundedMantissa t
  have hresult : ∀ h : (shiftToTargetExponent Format.binary32 em.roundedMantissa t
      .exact).1.mantissa ≠ 0, round Format.binary32 .positive n e =
        .finite .positive _ (shiftToTargetExponent Format.binary32 em.roundedMantissa t .exact).2
          (Nat.pos_of_ne_zero h) := by
    intro h
    rw [hdecrease]
    unfold roundWithAccuracy
    rw [hfirst]
    simp only
    rw [dif_neg h]
  generalize em.roundedMantissa = ρ at hround hmant' hexp' hresult
  rcases Nat.lt_or_ge ρ (2 ^ 24) with hsmall | hcarry
  · have hlogρ : ρ.log2 = 23 := by
      rw [Nat.log2_eq_iff (by omega)]
      exact ⟨by omega, hsmall⟩
    rw [hlogρ, show (max (((23 : Nat) : Int) + 1 + t - 24) (-149) - t).toNat = 0 by omega,
      pow_zero, Nat.div_one] at hmant'
    rw [hlogρ, show (max (((23 : Nat) : Int) + 1 + t - 24) (-149) - t).toNat = 0 by omega] at hexp'
    have hr := hresult (by rw [hmant']; omega)
    refine ⟨_, _, _, _, rfl, hr, ?_, Or.inl ?_⟩
    · rw [hmant', hexp']
      exact ⟨by omega, hsmall, by omega⟩
    · rw [hmant', hexp', hs, show 23 + s - 23 = s by omega]
      exact ⟨hround.1, hround.2, by omega⟩
  · obtain rfl : ρ = 2 ^ 24 := by omega
    rw [Nat.log2_two_pow,
      show (max (((24 : Nat) : Int) + 1 + t - 24) (-149) - t).toNat = 1 by omega] at hmant' hexp'
    have hr := hresult (by rw [hmant']; decide)
    refine ⟨_, _, _, _, rfl, hr, ?_, Or.inr ?_⟩
    · rw [hmant', hexp']
      exact ⟨by decide, by decide, by omega⟩
    · rw [hmant', hexp', hs, show 23 + s - 23 = s by omega]
      exact ⟨by omega, by decide, by omega⟩

/-! ## Packing -/

/-- A float with all its bits, in the range of its format, is unpacked as it was packed. -/
theorem unpack_pack {r : Nat} {t : Int} {h : 0 < r} (hnormal : Normal r t) (ht : t ≤ 104) :
    unpack Format.binary32 (pack Format.binary32 (.finite .positive r t h)) =
      .finite .positive r t h := by
  obtain ⟨hlow, hhigh, hexp⟩ := hnormal
  obtain ⟨b, rfl⟩ : ∃ b : Nat, t = b - 150 := ⟨(t + 150).toNat, by omega⟩
  have hlog : r.log2 + 1 = 24 := by
    have heq : r.log2 = 23 := by
      rw [Nat.log2_eq_iff (by omega)]
      exact ⟨hlow, hhigh⟩
    omega
  have hb : (BitVec.ofNat 8 b).toNat = b := by
    rw [BitVec.toNat_ofNat]
    omega
  have hpack : pack Format.binary32 (.finite .positive r (b - 150) h) =
      packComponents Format.binary32 .positive (BitVec.ofNat 8 b) (BitVec.ofNat 23 r) := by
    show (if 2 ^ 8 ≤ ((b : Int) - 150 + (127 : Nat) + (23 : Nat)).toNat + 1 then _
      else if r.log2 + 1 = 24 then _ else _) = _
    rw [if_neg (by omega), if_pos hlog]
    show packComponents Format.binary32 .positive
      (BitVec.ofNat 8 ((b : Int) - 150 + (127 : Nat) + (23 : Nat)).toNat) _ = _
    rw [show ((b : Int) - 150 + (127 : Nat) + (23 : Nat)).toNat = b by omega]
  have hm : (1#1 ++ BitVec.ofNat 23 r).toNat = r := by
    have hmod := Nat.mod_lt r (Nat.two_pow_pos 23)
    rw [BitVec.toNat_append]
    show 1 <<< 23 ||| r % 2 ^ 23 = r
    rw [← Nat.shiftLeft_add_eq_or_of_lt hmod]
    omega
  rw [hpack]
  unfold UnpackedFloat.unpack
  simp only [unpackMantissa_packComponents, unpackExponent_packComponents,
    unpackSign_packComponents]
  have hne : BitVec.ofNat 8 b ≠ -1#_ := by
    intro heq
    have := congrArg BitVec.toNat heq
    rw [hb] at this
    simp at this
    omega
  have hne0 : BitVec.ofNat 8 b ≠ 0#_ := by
    intro heq
    have := congrArg BitVec.toNat heq
    rw [hb] at this
    simp at this
    omega
  rw [if_neg hne, if_neg hne0]
  congr 1
  rw [hb]
  show (b : Int) - ((127 : Nat) + (23 : Nat)) = b - 150
  omega

/-! ## The difference -/

/-- A float less one that is not lost in the rounding. -/
theorem round_lt {m mc k : Nat} {ec : Int} (hm : 2 ^ 23 ≤ m) (hm' : m < 2 ^ 24)
    (hec : -149 ≤ ec) (hk : 0 < k) (hc : 2 * 2 ^ k < mc) (hn : 2 ^ 23 + mc ≤ m * 2 ^ k) :
    ∃ r t, ∃ h : 0 < r, round Format.binary32 .positive (m * 2 ^ k - mc) ec =
        .finite .positive r t h ∧ Normal r t ∧ (t < ec + k ∨ t = ec + k ∧ r < m) := by
  obtain ⟨q, r, t, h, hq, hround, hnormal, hcase⟩ :=
    round_bounds (n := m * 2 ^ k - mc) (e := ec) (by omega) hec
  refine ⟨r, t, h, hround, hnormal, ?_⟩
  generalize hdef : m * 2 ^ k - mc = n at *
  have hlog : n.log2 < 24 + k := by
    rw [Nat.log2_lt (by omega), pow_add]
    have : m * 2 ^ k < 2 ^ 24 * 2 ^ k := Nat.mul_lt_mul_of_pos_right hm' (Nat.two_pow_pos k)
    omega
  have hlog' : 23 ≤ n.log2 := (Nat.le_log2 (by omega)).mpr (by omega)
  rcases Nat.lt_or_ge n.log2 (23 + k) with hlow | hhigh
  · rcases hcase with ⟨-, -, ht⟩ | ⟨hcarry, hr, ht⟩
    · left
      omega
    · rcases Nat.lt_or_ge n.log2 (22 + k) with hlower | hupper
      · left
        omega
      · -- the carry reaches the exponent of the first float
        right
        obtain ⟨j, rfl⟩ : ∃ j, k = j + 1 := ⟨k - 1, by omega⟩
        rw [show n.log2 - 23 = j by omega] at hq ht
        have hdiv : (2 ^ 24 - 1) * 2 ^ j ≤ n := by
          rw [← Nat.le_div_iff_mul_le (Nat.two_pow_pos j), ← hq]
          omega
        rw [pow_succ 2 j] at hdef hc hn
        refine ⟨by omega, ?_⟩
        rw [hr]
        by_contra hle
        have hle' : m * (2 ^ j * 2) ≤ 2 ^ 23 * (2 ^ j * 2) := Nat.mul_le_mul_right _ (by omega)
        omega
  · right
    have hs : n.log2 - 23 = k := by omega
    rw [hs] at hq hcase
    have hsmall : q + 2 < m + 0 := by
      have : n < (m - 2) * 2 ^ k := by
        rw [Nat.sub_mul]
        omega
      rw [← Nat.div_lt_iff_lt_mul (Nat.two_pow_pos k), ← hq] at this
      omega
    rcases hcase with ⟨-, hr, ht⟩ | ⟨hcarry, -, -⟩
    · exact ⟨ht, by omega⟩
    · omega

/-- One positive float less another one, and what of it is known. -/
theorem unpack_sub {x c : Float32} {m mc k : Nat} {ec : Int} {h : 0 < m} {h' : 0 < mc}
    (hx : x.toModel.unpack = .finite .positive m (ec + k) h)
    (hcu : c.toModel.unpack = .finite .positive mc ec h') (hm : 2 ^ 23 ≤ m) (hm' : m < 2 ^ 24)
    (hec : -149 ≤ ec) (hexp : ec + k ≤ 104) (hk : 0 < k) (hc : 2 * 2 ^ k < mc)
    (hn : 2 ^ 23 + mc ≤ m * 2 ^ k) :
    ∃ r t, ∃ h : 0 < r, (x - c).toModel.unpack = .finite .positive r t h ∧
      (t < ec + k ∨ t = ec + k ∧ r < m) := by
  obtain ⟨r, t, hr, hround, hnormal, hlt⟩ := round_lt hm hm' hec hk hc hn
  refine ⟨r, t, hr, ?_, hlt⟩
  have hsub : UnpackedFloat.sub Format.binary32 x.toModel.unpack c.toModel.unpack =
      .finite .positive r t hr := by
    have hshift : (ec + k - min (ec + k) ec).toNat = k := by omega
    have hshift' : (ec - min (ec + k) ec).toNat = 0 := by omega
    have hmin : min (ec + k) ec = ec := by omega
    have hint : ((m * 2 ^ k : Nat) : Int) - (mc : Nat) = ((m * 2 ^ k - mc : Nat) : Int) := by omega
    rw [hx, hcu, ← hround]
    show UnpackedFloat.normalize Format.binary32
      (((m <<< (ec + k - min (ec + k) ec).toNat : Nat) : Int) -
        ((mc <<< (ec - min (ec + k) ec).toNat : Nat) : Int)) (min (ec + k) ec) .positive = _
    rw [hshift, hshift', hmin, Nat.shiftLeft_eq, Nat.shiftLeft_zero, hint]
    unfold UnpackedFloat.normalize
    rw [Int.compare_eq_gt.mpr (by omega), Int.toNat_natCast]
  show unpack Format.binary32 (pack Format.binary32 (UnpackedFloat.sub Format.binary32
    x.toModel.unpack c.toModel.unpack)) = _
  rw [hsub, unpack_pack hnormal (by omega)]

/-- A finite float that is not among the smallest has all its 24 bits. -/
theorem normal_of_unpack {b : BitVec Format.binary32.numBits} {s m e h}
    (hu : unpack Format.binary32 b = .finite s m e h) (he : -149 < e) :
    2 ^ 23 ≤ m ∧ m < 2 ^ 24 := by
  unfold UnpackedFloat.unpack at hu
  simp only at hu
  split_ifs at hu with h₁ h₂ h₃ h₄
  · obtain ⟨-, -, rfl⟩ := UnpackedFloat.finite.inj hu
    rw [h₃] at he
    exact absurd he (by decide)
  · obtain ⟨-, rfl, -⟩ := UnpackedFloat.finite.inj hu
    refine ⟨?_, BitVec.isLt _⟩
    rw [BitVec.toNat_append]
    exact (Nat.left_le_or).trans' (by decide)

/-! ## A tenth to one -/

theorem unpack_tenth : (0.1 : Float32).toModel.unpack =
    .finite .positive 13421773 (-27) (by decide) := rfl

theorem unpack_twentieth : (0.05 : Float32).toModel.unpack =
    .finite .positive 13421773 (-28) (by decide) := rfl

/-- A float from a tenth to one, unpacked. -/
theorem unpack_of_tenth_le {x : Float32} (hlow : 0.1 ≤ x) (hhigh : x ≤ 1) :
    ∃ m e, ∃ h : 0 < m, x.toModel.unpack = .finite .positive m e h ∧ 2 ^ 23 ≤ m ∧ m < 2 ^ 24 ∧
      (-27 < e ∨ e = -27 ∧ 13421773 ≤ m) ∧ (e < -23 ∨ e = -23 ∧ m ≤ 2 ^ 23) := by
  rw [le_iff32, unpack_tenth] at hlow
  rw [le_iff32, unpack_one32] at hhigh
  have hbits : ∀ s m e h, x.toModel.unpack = .finite s m e h → -149 < e → 2 ^ 23 ≤ m ∧ m < 2 ^ 24 :=
    fun s m e h hu => normal_of_unpack hu
  generalize x.toModel.unpack = u at hlow hhigh hbits
  cases u with
  | infinity s =>
      cases s with
      | negative => cases hlow
      | positive => cases hhigh
  | notANumber => cases hlow
  | zero s => cases hlow
  | finite s m e hm =>
      cases s with
      | negative => cases hlow
      | positive =>
          simp only [UnpackedFloat.le, UnpackedFloat.compare, Option.any_some,
            Ordering.isLE_then_iff_or, Int.compare_eq_lt, Int.compare_eq_eq,
            Nat.isLE_compare] at hlow hhigh
          obtain ⟨hm23, hm24⟩ := hbits _ _ _ _ rfl (by omega)
          exact ⟨m, e, hm, rfl, hm23, hm24, by omega, hhigh⟩

/-- Less a twentieth, a float from a tenth to one is less, and still at most one. -/
theorem lower_twentieth {x : Float32} (hlow : 0.1 ≤ x) (hhigh : x ≤ 1) :
    x - 0.05 < x ∧ x - 0.05 ≤ 1 := by
  obtain ⟨m, e, hm, hx, hm23, hm24, he, he'⟩ := unpack_of_tenth_le hlow hhigh
  obtain ⟨k, rfl⟩ : ∃ k : Nat, e = -28 + k := ⟨(e + 28).toNat, by omega⟩
  have hk : 1 ≤ k ∧ k ≤ 5 := by omega
  have hpow : 2 ^ 1 ≤ 2 ^ k ∧ 2 ^ k ≤ 2 ^ 5 :=
    ⟨Nat.pow_le_pow_right (by decide) hk.1, Nat.pow_le_pow_right (by decide) hk.2⟩
  have hroom : 2 ^ 23 + 13421773 ≤ m * 2 ^ k := by
    rcases he with he | ⟨he, hle⟩
    · have hpow' : 2 ^ 2 ≤ 2 ^ k := Nat.pow_le_pow_right (by decide) (by omega)
      calc 2 ^ 23 + 13421773 ≤ 2 ^ 23 * 2 ^ 2 := by decide
        _ ≤ m * 2 ^ k := Nat.mul_le_mul hm23 hpow'
    · calc 2 ^ 23 + 13421773 ≤ 13421773 * 2 ^ 1 := by decide
        _ ≤ m * 2 ^ k := Nat.mul_le_mul hle hpow.1
  obtain ⟨r, t, hr, hsub, hlt⟩ := unpack_sub hx unpack_twentieth hm23 hm24 (by decide) (by omega)
    (by omega) (by omega) hroom
  constructor
  · rw [lt_iff32, hsub, hx]
    simp only [UnpackedFloat.lt, UnpackedFloat.compare, beq_iff_eq, Option.some.injEq,
      Ordering.then_eq_lt, Int.compare_eq_lt, Int.compare_eq_eq, Nat.compare_eq_lt]
    exact hlt
  · rw [le_iff32, hsub, unpack_one32]
    simp only [UnpackedFloat.le, UnpackedFloat.compare, Option.any_some,
      Ordering.isLE_then_iff_or, Int.compare_eq_lt, Int.compare_eq_eq, Nat.isLE_compare]
    omega

end FloatText

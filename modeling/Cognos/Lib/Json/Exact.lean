/-
# `Cognos.Lib.Json.Exact` — exact numbers in JSON

What literals stand for are the rationals with finitely many decimals, and each of them that
is not negative has a literal.

    isDecimal_value   a literal stands for a decimal number
    value_ofDecimal   `m · 10 ^ (-k)` is what `me-k` stands for
    Printer           a way to write decimal numbers down exactly
-/
import Mathlib
import Cognos.Lib.Json.Natural
import Cognos.Lib.Json.Number

namespace Json

open NumState

/-! ## Decimal numbers -/

/-- Finitely many decimals are enough. -/
def IsDecimal (q : ℚ) : Prop := ∃ (k : ℕ) (m : ℤ), q * 10 ^ k = m

/-- The numbers of the source are decimal. -/
theorem isDecimal_ofScientific (m e : ℕ) : IsDecimal (OfScientific.ofScientific m true e : ℚ) := by
  refine ⟨e, m, ?_⟩
  show (Rat.ofScientific m true e : ℚ) * 10 ^ e = m
  rw [Rat.ofScientific_true_def, Rat.mkRat_eq_div]
  push_cast
  field_simp

theorem IsDecimal.sub {p q : ℚ} (hp : IsDecimal p) (hq : IsDecimal q) : IsDecimal (p - q) := by
  obtain ⟨k, m, hm⟩ := hp
  obtain ⟨l, n, hn⟩ := hq
  refine ⟨k + l, m * 10 ^ l - n * 10 ^ k, ?_⟩
  push_cast
  rw [← hm, ← hn, pow_add]
  ring

theorem isDecimal_value (n : NumLit) : IsDecimal n.value := by
  have hscaled : ∀ (m : ℤ) (z : ℤ), IsDecimal ((m : ℚ) * 10 ^ z) := by
    intro m z
    rcases Int.le_total 0 z with hz | hz
    · obtain ⟨k, rfl⟩ := Int.eq_ofNat_of_zero_le hz
      refine ⟨0, m * 10 ^ k, ?_⟩
      push_cast
      rw [zpow_natCast]
      ring
    · obtain ⟨k, hk⟩ := Int.eq_ofNat_of_zero_le (Int.neg_nonneg.mpr hz)
      obtain rfl : z = -k := by omega
      refine ⟨k, m, ?_⟩
      rw [zpow_neg, zpow_natCast, mul_assoc, inv_mul_cancel₀ (by positivity), mul_one]
  unfold NumLit.value numberOf
  obtain ⟨negative, int, frac, exp⟩ := splitNumber n.text.toList
  show IsDecimal ((if negative = true then -((Nat.ofDigitChars 10 (int ++ frac) 0 : ℕ) : ℚ)
    else ((Nat.ofDigitChars 10 (int ++ frac) 0 : ℕ) : ℚ)) * 10 ^ (readExponent exp - frac.length))
  split
  · have h := hscaled (-(Nat.ofDigitChars 10 (int ++ frac) 0 : ℕ)) (readExponent exp - frac.length)
    push_cast at h
    exact h
  · have h := hscaled (Nat.ofDigitChars 10 (int ++ frac) 0 : ℕ) (readExponent exp - frac.length)
    push_cast at h
    exact h

/-! ## Their literals -/

theorem foldl_digits {cs : List Char} {s : NumState} (hs : s = .sign ∨ s = .digits)
    (hne : cs ≠ []) (h : ∀ c ∈ cs, c.isDigit = true) : cs.foldl numStep s = .digits := by
  induction cs generalizing s with
  | nil => exact absurd rfl hne
  | cons c cs ih =>
      have hstep : numStep s c = .digits := by
        rcases hs with rfl | rfl
        · exact if_pos (h c List.mem_cons_self)
        · exact if_pos (h c List.mem_cons_self)
      rw [List.foldl_cons, hstep]
      cases cs with
      | nil => rfl
      | cons d cs =>
          exact ih (Or.inr rfl) (List.cons_ne_nil _ _) fun e he => h e (List.mem_cons_of_mem _ he)

theorem isDigit_toDigits {n : ℕ} : ∀ c ∈ Nat.toDigits 10 n, c.isDigit = true := fun _ hc =>
  Nat.isDigit_of_mem_toDigits (by decide) (Nat.le_refl 10) hc

/-- The characters of `me-k`. -/
def decimalChars (m k : ℕ) : List Char := Nat.toDigits 10 m ++ 'e' :: '-' :: Nat.toDigits 10 k

theorem isNumber_decimalChars (m k : ℕ) : isNumber (decimalChars m k) = true := by
  have hfirst : numStep ((Nat.toDigits 10 m).foldl numStep .start) 'e' = .exp := by
    rcases Nat.eq_zero_or_pos m with rfl | hpos
    · rw [Nat.toDigits_zero]
      rfl
    · obtain ⟨c, cs, hcs, hc⟩ := toDigits_head hpos
      have hdigits : ∀ d ∈ c :: cs, d.isDigit = true := hcs ▸ isDigit_toDigits
      rw [hcs, foldl_int_of_head (hdigits c List.mem_cons_self) hc fun d hd =>
        hdigits d (List.mem_cons_of_mem _ hd)]
      rfl
  have hsign : numStep .exp '-' = .sign := rfl
  rw [isNumber, decimalChars, List.foldl_append, List.foldl_cons, hfirst, List.foldl_cons, hsign,
    foldl_digits (Or.inl rfl) Nat.toDigits_ne_nil isDigit_toDigits]
  rfl

/-- The literal of `m · 10 ^ (-k)`. -/
def NumLit.ofDecimal (m k : ℕ) : NumLit :=
  ⟨String.ofList (decimalChars m k), by rw [String.toList_ofList]; exact isNumber_decimalChars m k⟩

theorem span_of_all {α : Type} {p : α → Bool} {as bs : List α} (h : ∀ a ∈ as, p a = true)
    (hb : ∀ b ∈ bs.head?, p b = false) : (as ++ bs).span p = (as, bs) := by
  rw [List.span_eq_takeWhile_dropWhile]
  have htake : bs.takeWhile p = [] ∧ bs.dropWhile p = bs := by
    cases bs with
    | nil => exact ⟨rfl, rfl⟩
    | cons b bs =>
        have hb' := hb b rfl
        exact ⟨List.takeWhile_cons_of_neg (by rw [hb']; exact Bool.false_ne_true),
          List.dropWhile_cons_of_neg (by rw [hb']; exact Bool.false_ne_true)⟩
  rw [List.takeWhile_append_of_pos h, List.dropWhile_append_of_pos h, htake.1, htake.2,
    List.append_nil]

/-- Without a sign. -/
theorem splitNumber_cons {c : Char} {cs : List Char} (h : c ≠ '-') :
    splitNumber (c :: cs) =
      let parts := (c :: cs).span fun c => c != 'e' && c != 'E'
      let point := parts.1.span (· != '.')
      (false, point.1, point.2.drop 1, parts.2.drop 1) := by
  simp [splitNumber, h]

theorem splitNumber_decimalChars (m k : ℕ) : splitNumber (decimalChars m k) =
    (false, Nat.toDigits 10 m, [], '-' :: Nat.toDigits 10 k) := by
  have hnot : ∀ d : Char, d.isDigit = false → ∀ c ∈ Nat.toDigits 10 m, (c != d) = true := by
    intro d hd c hc
    rw [bne_iff_ne]
    rintro rfl
    rw [isDigit_toDigits c hc] at hd
    cases hd
  obtain ⟨c, cs, hcs⟩ := List.exists_cons_of_ne_nil (Nat.toDigits_ne_nil (b := 10) (n := m))
  have hexp : (Nat.toDigits 10 m ++ 'e' :: '-' :: Nat.toDigits 10 k).span
      (fun c => c != 'e' && c != 'E') = (Nat.toDigits 10 m, 'e' :: '-' :: Nat.toDigits 10 k) :=
    span_of_all (fun c hc => by rw [hnot 'e' rfl c hc, hnot 'E' rfl c hc]; rfl)
      (fun b hb => by cases hb; rfl)
  have hdot : (Nat.toDigits 10 m ++ []).span (· != '.') = (Nat.toDigits 10 m, []) :=
    span_of_all (hnot '.' rfl) (fun b hb => by cases hb)
  rw [List.append_nil] at hdot
  have hminus : c ≠ '-' := bne_iff_ne.mp (hnot '-' rfl c (hcs ▸ List.mem_cons_self))
  unfold decimalChars
  rw [hcs] at hexp hdot ⊢
  rw [List.cons_append, splitNumber_cons hminus, ← List.cons_append]
  simp only [hexp, hdot]
  rfl

theorem value_ofDecimal (m k : ℕ) : (NumLit.ofDecimal m k).value * 10 ^ k = m := by
  unfold NumLit.value NumLit.ofDecimal numberOf
  simp only [String.toList_ofList, splitNumber_decimalChars, List.append_nil, readExponent,
    Nat.ofDigitChars_ten_toDigits]
  norm_num

/-- A way to write decimal numbers down exactly. -/
structure Printer where
  print : ℚ → NumLit
  value_print : ∀ q, 0 ≤ q → IsDecimal q → (print q).value = q

theorem exists_literal {q : ℚ} (hq : 0 ≤ q) (h : IsDecimal q) : ∃ n : NumLit, n.value = q := by
  obtain ⟨k, m, hm⟩ := h
  have hpow : (0 : ℚ) < 10 ^ k := by positivity
  have hm0 : 0 ≤ m := by
    have : (0 : ℚ) ≤ m := hm ▸ mul_nonneg hq hpow.le
    exact_mod_cast this
  obtain ⟨n, rfl⟩ := Int.eq_ofNat_of_zero_le hm0
  refine ⟨.ofDecimal n k, ?_⟩
  have hvalue := value_ofDecimal n k
  have heq : (NumLit.ofDecimal n k).value * 10 ^ k = q * 10 ^ k := by
    rw [hvalue, hm]
    norm_cast
  exact mul_right_cancel₀ hpow.ne' heq

/-- There is one. -/
theorem nonempty_printer : Nonempty Printer := by
  classical
  refine ⟨⟨fun q => if h : ∃ n : NumLit, n.value = q then h.choose else .ofNat 0, ?_⟩⟩
  intro q hq h
  have hex := exists_literal hq h
  rw [dif_pos hex]
  exact hex.choose_spec

end Json

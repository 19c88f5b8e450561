/-
# `Cognos.Lib.Json.Natural` — natural numbers in JSON

An unsigned integer is written with its decimal digits and read from digits only: a sign, a
point or an exponent makes a float of the literal.

    nat?_ofNat         a number reads back
    asBytes?_ofBytes   an array of bytes reads back
-/
import Cognos.Lib.Json.Record

namespace Json

open NumState

/-! ## Literals -/

/-- After its first digit an integer goes on with digits. -/
theorem foldl_int {cs : List Char} (h : ∀ c ∈ cs, c.isDigit = true) :
    cs.foldl numStep .int = .int := by
  induction cs with
  | nil => rfl
  | cons c cs ih =>
      rw [List.foldl_cons, numStep, if_pos (h c List.mem_cons_self)]
      exact ih fun d hd => h d (List.mem_cons_of_mem _ hd)

theorem foldl_int_of_head {c : Char} {cs : List Char} (hc : c.isDigit = true) (h0 : c ≠ '0')
    (h : ∀ d ∈ cs, d.isDigit = true) : (c :: cs).foldl numStep .start = .int := by
  have hminus : c ≠ '-' := by
    rintro rfl
    cases hc
  rw [List.foldl_cons, numStep, if_neg hminus, if_neg h0, if_pos hc]
  exact foldl_int h

/-- The first digit of a number that is not zero is not zero. -/
theorem toDigits_head {n : Nat} (h : 0 < n) :
    ∃ c cs, Nat.toDigits 10 n = c :: cs ∧ c ≠ '0' := by
  induction n using Nat.strong_induction_on with
  | _ n ih =>
      rcases Nat.lt_or_ge n 10 with hlt | hge
      · refine ⟨n.digitChar, [], Nat.toDigits_of_lt_base hlt, ?_⟩
        interval_cases n <;> decide
      · obtain ⟨c, cs, hcs, hc⟩ := ih (n / 10) (by omega) (by omega)
        refine ⟨c, cs ++ [(n % 10).digitChar], ?_, hc⟩
        rw [Nat.toDigits_of_base_le (by decide) hge, hcs]
        rfl

theorem isNumber_toDigits (n : Nat) : isNumber (Nat.toDigits 10 n) = true := by
  rcases Nat.eq_zero_or_pos n with rfl | hpos
  · rw [Nat.toDigits_zero]
    rfl
  · obtain ⟨c, cs, hcs, hc⟩ := toDigits_head hpos
    have hdigits : ∀ d ∈ c :: cs, d.isDigit = true := fun d hd =>
      Nat.isDigit_of_mem_toDigits (by decide) (Nat.le_refl 10) (hcs ▸ hd)
    rw [isNumber, hcs, foldl_int_of_head (hdigits c List.mem_cons_self) hc fun d hd =>
      hdigits d (List.mem_cons_of_mem _ hd)]
    rfl

/-- The literal of a number. -/
def NumLit.ofNat (n : Nat) : NumLit :=
  ⟨String.ofList (Nat.toDigits 10 n), by rw [String.toList_ofList]; exact isNumber_toDigits n⟩

/-- The number of a literal that is one. -/
def NumLit.nat? (n : NumLit) : Option Nat :=
  if n.text.toList.all Char.isDigit then some (Nat.ofDigitChars 10 n.text.toList 0) else none

@[simp] theorem NumLit.nat?_ofNat (n : Nat) : (NumLit.ofNat n).nat? = some n := by
  have htext : (NumLit.ofNat n).text.toList = Nat.toDigits 10 n := String.toList_ofList
  have hall : (Nat.toDigits 10 n).all Char.isDigit = true := List.all_eq_true.mpr fun c hc =>
    Nat.isDigit_of_mem_toDigits (by decide) (Nat.le_refl 10) hc
  rw [nat?, htext, if_pos hall, Nat.ofDigitChars_ten_toDigits]

/-! ## Values -/

/-- An unsigned integer as a value. -/
def Value.ofNat (n : Nat) : Value := .num (.ofNat n)

/-- An unsigned integer asked for. -/
def Value.asNat? : Value → Option Nat
  | .num n => n.nat?
  | _ => none

@[simp] theorem Value.asNat?_ofNat (n : Nat) : (Value.ofNat n).asNat? = some n :=
  NumLit.nat?_ofNat n

/-- A byte asked for. -/
def Value.asByte? (v : Value) : Option UInt8 :=
  v.asNat?.bind fun n => if n < 256 then some (UInt8.ofNat n) else none

theorem Value.asByte?_ofNat (b : UInt8) : (Value.ofNat b.toNat).asByte? = some b := by
  rw [asByte?, asNat?_ofNat, Option.bind_some, if_pos b.toNat_lt, UInt8.ofNat_toNat]

/-- An array of bytes. -/
def Value.ofBytes (bs : List UInt8) : Value := .arr (bs.map fun b => .ofNat b.toNat)

/-- The bytes of an array. -/
def Value.asBytes? : Value → Option (List UInt8)
  | .arr vs => vs.mapM Value.asByte?
  | _ => none

theorem Value.asBytes?_ofBytes (bs : List UInt8) : (Value.ofBytes bs).asBytes? = some bs := by
  show (bs.map fun b => Value.ofNat b.toNat).mapM Value.asByte? = some bs
  induction bs with
  | nil => rfl
  | cons b bs ih =>
      rw [List.map_cons, List.mapM_cons, ih, Value.asByte?_ofNat]
      rfl

end Json

/-
# `Cognos.Lib.Json.Number` — numbers, and a `Value` from a text

The number a literal stands for, a rational; and what `serde_json` makes of a literal
where a `Value` is asked for, an `f64`, which need not be the nearest one.  What is
relied on of it is what its documentation says: no literal becomes a NaN, one from zero
to one stays there, and short ones are exact as far as an `f64` can be.

    Reader         the package, as a `Value` asks for it
    Reader.sample  one that is real on a table of literals
    index          `v["key"]`
-/
import Mathlib
import Cognos.Lib.Json.Value
import Cognos.Lib.FloatUnit

namespace Json

/-! ## The number of a literal -/

/-- The sign, the digits before and behind the point, and what follows the `e`. -/
def splitNumber (cs : List Char) : Bool × List Char × List Char × List Char :=
  let (negative, cs) := match cs with
    | '-' :: cs => (true, cs)
    | cs => (false, cs)
  let (mantissa, exp) := cs.span fun c => c != 'e' && c != 'E'
  let (int, frac) := mantissa.span (· != '.')
  (negative, int, frac.drop 1, exp.drop 1)

def readExponent : List Char → Int
  | '-' :: cs => -(Nat.ofDigitChars 10 cs 0 : Int)
  | '+' :: cs => Nat.ofDigitChars 10 cs 0
  | cs => Nat.ofDigitChars 10 cs 0

/-- The number some characters stand for. -/
def numberOf (cs : List Char) : ℚ :=
  let (negative, int, frac, exp) := splitNumber cs
  let m : ℚ := Nat.ofDigitChars 10 (int ++ frac) 0
  (if negative then -m else m) * 10 ^ (readExponent exp - frac.length)

/-- The number a literal stands for. -/
def NumLit.value (n : NumLit) : ℚ := numberOf n.text.toList

/-! ## The package -/

/-- Some literals and their `f64`. -/
def literals : List (String × Float) :=
  [("0", 0), ("0.1", 0.1), ("0.3", 0.3), ("0.5", 0.5), ("0.9", 0.9), ("1", 1), ("1.5", 1.5)]

/-- What `serde_json` makes of a text, beyond its grammar. -/
structure Reader where
  /-- `as_f64` of a number; `none` when it is beyond the range of its type. -/
  asF64 : NumLit → Option Float
  /-- The text of the error on a text that is refused. -/
  errorText : String → String
  isNaN_asF64 : ∀ n x, asF64 n = some x → x.isNaN = false
  unit_asF64 : ∀ n, 0 ≤ n.value → n.value ≤ 1 → ∃ x, asF64 n = some x ∧ 0 ≤ x ∧ x ≤ 1
  asF64_literals : ∀ r ∈ literals, ∀ n, n.text = r.1 → asF64 n = some r.2

namespace Reader

variable (R : Reader)

/-- `v.as_f64()`. -/
def asF64? : Value → Option Float
  | .num n => R.asF64 n
  | _ => none

def inRange (n : NumLit) : Bool := (R.asF64 n).isSome

/-- `serde_json::from_str::<Value>(raw)`. -/
def fromStr (raw : String) : Option Value := (parseText raw).bind (Value.admitted R.inRange 127)

theorem isNaN_asF64? {v : Value} {x : Float} (h : R.asF64? v = some x) : x.isNaN = false := by
  cases v with
  | num n => exact R.isNaN_asF64 n x h
  | _ => cases h

theorem fromStr_print {v : Value} (hdepth : v.depth ≤ 127) (hnums : v.numsAll R.inRange = true) :
    R.fromStr v.print = some v := by
  rw [fromStr, parseText_print, Option.bind_some, Value.admitted, if_pos ⟨hdepth, hnums⟩]

/-- Real on the literals of the table, and somewhere allowed on all others. -/
def sampleF64 (n : NumLit) : Float :=
  (literals.lookup n.text).getD (if 0 ≤ n.value ∧ n.value ≤ 1 then 0.5 else 1.5)

theorem sampleF64_or (n : NumLit) : (∃ r ∈ literals, n.text = r.1 ∧ sampleF64 n = r.2) ∨
    sampleF64 n = if 0 ≤ n.value ∧ n.value ≤ 1 then 0.5 else 1.5 := by
  unfold sampleF64
  cases h : literals.lookup n.text with
  | none => exact Or.inr rfl
  | some x =>
      left
      obtain ⟨l₁, l₂, heq, -⟩ := List.lookup_eq_some_iff.mp h
      exact ⟨(n.text, x), by rw [heq]; exact List.mem_append_right _ List.mem_cons_self, rfl, rfl⟩

theorem value_of_text {n : NumLit} (h : n.text = "1.5") : n.value = 3 / 2 := by
  unfold NumLit.value
  rw [h]
  decide +kernel

/-- One set of what the package may do. -/
def sample : Reader where
  asF64 n := some (sampleF64 n)
  errorText _ := "expected value at line 1 column 1"
  isNaN_asF64 := by
    rintro n x ⟨⟩
    rcases sampleF64_or n with ⟨r, hr, -, hx⟩ | hx
    · have hall : ∀ r ∈ literals, r.2.isNaN = false := by decide +kernel
      rw [hx]
      exact hall r hr
    · rw [hx]
      split_ifs
      all_goals decide +kernel
  unit_asF64 := by
    intro n hlow hhigh
    refine ⟨_, rfl, ?_⟩
    rcases sampleF64_or n with ⟨r, hr, htext, hx⟩ | hx
    · rw [hx]
      have hall : ∀ r ∈ literals, r.1 ≠ "1.5" → 0 ≤ r.2 ∧ r.2 ≤ 1 := by decide +kernel
      refine hall r hr fun h => ?_
      rw [value_of_text (htext.trans h)] at hhigh
      norm_num at hhigh
    · rw [hx, if_pos ⟨hlow, hhigh⟩]
      decide +kernel
  asF64_literals := by
    intro r hr n htext
    have hnodup : ∀ r ∈ literals, literals.lookup r.1 = some r.2 := by decide +kernel
    show some (sampleF64 n) = some r.2
    rw [sampleF64, htext, hnodup r hr]
    rfl

end Reader

/-! ## Members of a value -/

/-- `v[key]`: `Null` where there is none. -/
def Value.index (v : Value) (key : String) : Value := (v.get? key).getD .null

/-- `v.as_array()`. -/
def Value.asArray? : Value → Option (List Value)
  | .arr vs => some vs
  | _ => none

/-- The strings of an array, `filter_map(as_str)`; of what is none, none. -/
def Value.strings (v : Value) : List String :=
  (v.asArray?.map (·.filterMap Value.asStr?)).getD []

end Json

/-
# `Cognos.Lib.Decimal` — decimal numbers as two languages read them

`str::parse::<u64>` of Rust and `int(str)` of Python.  Rust takes one sign and the ten
digits, and no number from 2 ^ 64 on.  Python takes white space around the number, a minus
sign, single underscores between digits and the digits of every script, and stops at a
number of digits.

Which characters beyond ASCII are white space or digits is left to the Unicode data of the
Python at hand.
-/
import Mathlib

namespace Decimal

/-- One digit at least, and nothing else. -/
def isDigits (cs : List Char) : Bool := !cs.isEmpty && cs.all Char.isDigit

/-- The number a row of digits stands for. -/
def value (cs : List Char) : Nat := Nat.ofDigitChars 10 cs 0

/-! ## Rust -/

/-- What follows a leading plus sign. -/
def dropPlus : List Char → List Char
  | '+' :: cs => cs
  | cs => cs

/-- `s.parse::<u64>()`. -/
def parseU64 (s : String) : Option UInt64 :=
  let ds := dropPlus s.toList
  if isDigits ds = true ∧ value ds < 2 ^ 64 then some (UInt64.ofNat (value ds)) else none

theorem isDigits_toDigits (n : Nat) : isDigits (Nat.toDigits 10 n) = true := by
  have hne : Nat.toDigits 10 n ≠ [] := Nat.toDigits_ne_nil
  simp only [isDigits, Bool.and_eq_true, Bool.not_eq_true', List.isEmpty_eq_false_iff,
    List.all_eq_true]
  exact ⟨hne, fun c hc => Nat.isDigit_of_mem_toDigits (by decide) (by decide) hc⟩

theorem dropPlus_cons {c : Char} (hc : c ≠ '+') (cs : List Char) :
    dropPlus (c :: cs) = c :: cs := by
  unfold dropPlus
  split
  · next heq =>
      cases heq
      exact absurd rfl hc
  · rfl

theorem dropPlus_of_isDigits {cs : List Char} (h : isDigits cs = true) : dropPlus cs = cs := by
  cases cs with
  | nil => rfl
  | cons c cs =>
      apply dropPlus_cons
      rintro rfl
      simp [isDigits] at h

/-- A number written out is read back. -/
theorem parseU64_toString (n : UInt64) : parseU64 (toString n.toNat) = some n := by
  have hlist : (toString n.toNat).toList = Nat.toDigits 10 n.toNat := by
    rw [Nat.toString_eq_ofList_toDigits, String.toList_ofList]
  have hvalue : value (Nat.toDigits 10 n.toNat) = n.toNat := Nat.ofDigitChars_ten_toDigits
  have hdigits := isDigits_toDigits n.toNat
  simp only [parseU64, hlist, dropPlus_of_isDigits hdigits, hvalue, hdigits]
  rw [if_pos ⟨trivial, n.toNat_lt⟩, UInt64.ofNat_toNat]

/-! ## Python -/

/-- The white space and the digits beyond ASCII. -/
structure UnicodeData where
  isSpace : Char → Bool
  decimal : Char → Option (Fin 10)

/-- White space and digits beyond ASCII as ASCII ones, what is neither as `?`. -/
def UnicodeData.toAscii (U : UnicodeData) (c : Char) : Char :=
  if c.toNat < 127 then c
  else if U.isSpace c then ' '
  else
    match U.decimal c with
    | some d => Nat.digitChar d
    | none => '?'

def isAsciiSpace (c : Char) : Bool :=
  c == ' ' || c == '\t' || c == '\n' || c == '\x0b' || c == '\x0c' || c == '\r'

def strip (cs : List Char) : List Char :=
  ((cs.dropWhile isAsciiSpace).reverse.dropWhile isAsciiSpace).reverse

/-- The sign, and what follows it. -/
def splitSign : List Char → Bool × List Char
  | '-' :: cs => (true, cs)
  | '+' :: cs => (false, cs)
  | cs => (false, cs)

/-- The sign and the digits of an integer, single underscores between them left out. -/
def readInt (U : UnicodeData) (s : String) : Option (Bool × List Char) :=
  let (negative, cs) := splitSign (strip (s.toList.map U.toAscii))
  let groups := cs.splitOn '_'
  if groups.all isDigits then some (negative, groups.flatten) else none

def signed (negative : Bool) (n : Nat) : Int := if negative then -n else n

/-- `sys.get_int_max_str_digits()`. -/
def maxStrDigits : Nat := 4300

/-- `int(s)`. -/
def pythonInt (U : UnicodeData) (s : String) : Option Int :=
  match readInt U s with
  | none => none
  | some (negative, ds) =>
      if ds.length ≤ maxStrDigits then some (signed negative (value ds)) else none

/-! ## The common part -/

/-- A plain number: a plus sign or none, and digits. -/
theorem plain_of_parseU64 {s : String} {n : UInt64} (h : parseU64 s = some n) :
    isDigits (dropPlus s.toList) = true ∧ value (dropPlus s.toList) = n.toNat := by
  simp only [parseU64] at h
  split at h
  · next hd =>
      cases h
      exact ⟨hd.1, (UInt64.toNat_ofNat_of_lt' hd.2).symm⟩
  · cases h

theorem mem_of_isDigits {cs : List Char} {c : Char} (h : isDigits cs = true) (hc : c ∈ cs) :
    c.isDigit = true := by
  simp only [isDigits, Bool.and_eq_true, List.all_eq_true] at h
  exact h.2 c hc

theorem mem_dropPlus {cs : List Char} {c : Char} (hc : c ∈ cs) : c ∈ dropPlus cs ∨ c = '+' := by
  unfold dropPlus
  split
  · next cs' =>
      rcases List.mem_cons.mp hc with rfl | hc
      · exact Or.inr rfl
      · exact Or.inl hc
  · exact Or.inl hc

theorem toAscii_of_isDigit (U : UnicodeData) {c : Char} (h : c.isDigit = true ∨ c = '+') :
    U.toAscii c = c := by
  have hlt : c.toNat < 127 := by
    rcases h with h | rfl
    · obtain ⟨-, hle⟩ := Char.isDigit_iff_toNat.mp h
      have hnine : '9'.toNat = 57 := rfl
      omega
    · decide
  rw [UnicodeData.toAscii, if_pos hlt]

theorem not_isAsciiSpace {c : Char} (h : c.isDigit = true ∨ c = '+') : isAsciiSpace c = false := by
  rcases h with h | rfl
  · rw [← Bool.not_eq_true]
    intro hs
    simp only [isAsciiSpace, Bool.or_eq_true, beq_iff_eq] at hs
    rcases hs with ((((rfl | rfl) | rfl) | rfl) | rfl) | rfl <;> cases h
  · rfl

theorem dropWhile_eq_self {p : Char → Bool} {cs : List Char} (h : ∀ c ∈ cs, p c = false) :
    cs.dropWhile p = cs := by
  cases cs with
  | nil => rfl
  | cons c cs => rw [List.dropWhile_cons_of_neg (by rw [h c List.mem_cons_self]; decide)]

theorem strip_eq_self {cs : List Char} (h : ∀ c ∈ cs, isAsciiSpace c = false) : strip cs = cs := by
  have hrev : ∀ c ∈ cs.reverse, isAsciiSpace c = false := fun c hc =>
    h c (List.mem_reverse.mp hc)
  rw [strip, dropWhile_eq_self h, dropWhile_eq_self hrev, List.reverse_reverse]

theorem splitSign_of_isDigits {cs : List Char} (h : isDigits (dropPlus cs) = true) :
    splitSign cs = (false, dropPlus cs) := by
  cases cs with
  | nil => rfl
  | cons c cs =>
      by_cases hplus : c = '+'
      · subst hplus
        rfl
      · have hdrop := dropPlus_cons hplus cs
        have hdigit : c.isDigit = true := by
          rw [hdrop] at h
          exact mem_of_isDigits h List.mem_cons_self
        rw [hdrop]
        unfold splitSign
        split
        · next heq =>
            cases heq
            cases hdigit
        · next heq =>
            cases heq
            exact absurd rfl hplus
        · rfl

/-- What Rust reads, Python reads the same, but for the number of its digits. -/
theorem readInt_of_parseU64 (U : UnicodeData) {s : String} {n : UInt64}
    (h : parseU64 s = some n) :
    readInt U s = some (false, dropPlus s.toList) := by
  obtain ⟨hdigits, -⟩ := plain_of_parseU64 h
  have hplain : ∀ c ∈ s.toList, c.isDigit = true ∨ c = '+' := by
    intro c hc
    rcases mem_dropPlus hc with hc | hc
    · exact Or.inl (mem_of_isDigits hdigits hc)
    · exact Or.inr hc
  have hmap : s.toList.map U.toAscii = s.toList := by
    rw [List.map_congr_left fun c hc => toAscii_of_isDigit U (hplain c hc), List.map_id']
  have hstrip : strip s.toList = s.toList :=
    strip_eq_self fun c hc => not_isAsciiSpace (hplain c hc)
  have hunder : '_' ∉ dropPlus s.toList := by
    intro hc
    have hdigit := mem_of_isDigits hdigits hc
    cases hdigit
  simp only [readInt, hmap, hstrip, splitSign_of_isDigits hdigits,
    List.splitOn_eq_singleton hunder]
  simp [hdigits]

end Decimal

/-
# `Cognos.Lib.Codecs` — the texts of numbers and times

What the serialisation packages do with floats and times, as far as a program can see
it.  An `f32` is written by itself in its shortest decimal text, inside a `Value` in the
shortest text of its `f64`; both read back as the `f32` they came from.  A literal
beyond the range of `f32` reads as an infinity, and what is not finite has no text: it
is written as `null`.

    Codecs     the functions, with what their documentation says of them
    sample     one set of them, real on a table of constants
-/
import Mathlib
import Cognos.Lib.Uuid
import Cognos.Lib.FloatText

open Json (NumLit)

namespace Codecs

/-- Some floats with their two texts: by itself, and as an `f64`. -/
def table : List (Float32 × String × String) :=
  [(0.15, "0.15", "0.15000000596046448"), (0.4, "0.4", "0.4000000059604645"),
    (0.65, "0.65", "0.6499999761581421"), (0.75, "0.75", "0.75"),
    (0.85, "0.85", "0.8500000238418579"), (0.9, "0.9", "0.8999999761581421"), (1, "1.0", "1.0")]

end Codecs

/-- The texts of `f32`s and of times. -/
structure Codecs (Time : Type) where
  /-- A time as `chrono` serialises it. -/
  showTime : Time → String
  readTime : String → Option Time
  /-- `a < b` on times. -/
  earlier : Time → Time → Bool
  /-- A finite `f32`, written by itself. -/
  printF32 : Float32 → NumLit
  /-- A finite `f32` that a `Value` holds. -/
  printWide : Float32 → NumLit
  /-- A number where an `f32` is asked for. -/
  readF32 : NumLit → Option Float32
  /-- A number where a `Value` is asked for: `false` when it is beyond the range of `f64`. -/
  inRange : NumLit → Bool
  readTime_showTime : ∀ t, readTime (showTime t) = some t
  escapedLen_showTime : ∀ t, Json.escapedLen (showTime t) ≤ 40
  printF32_table : ∀ r ∈ Codecs.table, (printF32 r.1).text = r.2.1
  printWide_table : ∀ r ∈ Codecs.table, (printWide r.1).text = r.2.2
  readF32_printF32 : ∀ x, x.isFinite = true → readF32 (printF32 x) = some x
  readF32_printWide : ∀ x, x.isFinite = true → readF32 (printWide x) = some x
  readF32_above : ∀ n, n.text = "1e39" → readF32 n = some (1 / 0)
  readF32_below : ∀ n, n.text = "-1e39" → readF32 n = some (-1 / 0)

namespace Codecs

variable {Time : Type} (K : Codecs Time)

/-! ## Members of a record -/

/-- `serialize_f32`. -/
def f32 (x : Float32) : Json.Value := if x.isFinite then .num (K.printF32 x) else .null

/-- `Value::from(x)` for an `f32`. -/
def wide (x : Float32) : Json.Value := if x.isFinite then .num (K.printWide x) else .null

/-- An `f32` asked for. -/
def readF32? : Json.Value → Option Float32
  | .num n => K.readF32 n
  | _ => none

/-- A time asked for. -/
def readTime? (v : Json.Value) : Option Time := v.asStr?.bind K.readTime

theorem readF32?_f32 {x : Float32} (h : x.isFinite = true) : K.readF32? (K.f32 x) = some x := by
  rw [f32, if_pos h]
  exact K.readF32_printF32 x h

theorem readF32?_wide {x : Float32} (h : x.isFinite = true) : K.readF32? (K.wide x) = some x := by
  rw [wide, if_pos h]
  exact K.readF32_printWide x h

@[simp] theorem readTime?_showTime (t : Time) : K.readTime? (.str (K.showTime t)) = some t :=
  K.readTime_showTime t

end Codecs

/-- A UUID asked for. -/
def Uuid.readUuid? (v : Json.Value) : Option Uuid := v.asStr?.bind Uuid.parse?

/-! ## A sample -/

namespace Codecs

/-- The literal of a list of characters that is one. -/
def literal (cs : List Char) : NumLit := (NumLit.ofChars? cs).getD ⟨"0", rfl⟩

/-- A number in unary: `1` and as many zeros. -/
def unary (n : Nat) : List Char := '1' :: List.replicate n '0'

theorem isNumber_unary (n : Nat) : Json.isNumber (unary n) = true := by
  have h : (List.replicate n '0').foldl Json.numStep .int = .int := by
    induction n with
    | zero => rfl
    | succ n ih => exact ih
  show (Json.NumState.accepts ((List.replicate n '0').foldl Json.numStep .int)) = true
  rw [h]
  rfl

theorem mem_unary {n : Nat} {c : Char} (h : c ∈ unary n) : c = '1' ∨ c = '0' := by
  rcases List.mem_cons.mp h with rfl | h
  · exact .inl rfl
  · exact .inr (List.eq_of_mem_replicate h)

def bits (x : Float32) : Nat := x.toModel.toBits.toNat

instance (b : BitVec Float.Model.Format.binary32.numBits) :
    Decidable (Float.Model.Format.binary32.Valid b) :=
  decidable_of_iff _ ⟨Float.Model.Format.Valid.mk, Float.Model.Format.Valid.eq_packedNaN⟩

/-- The float of these bits, when there is one. -/
def ofBits? (n : Nat) : Option Float32 :=
  if h : Float.Model.Format.binary32.Valid (UInt32.ofNat n).toBitVec then some ⟨⟨UInt32.ofNat n, h⟩⟩
  else none

theorem ofBits?_bits (x : Float32) : ofBits? (bits x) = some x := by
  obtain ⟨⟨b, hb⟩⟩ := x
  simp [ofBits?, bits, hb]

/-- The text of a float: from the table, or its bits in unary. -/
def sampleText (col : String × String → String) (x : Float32) : NumLit :=
  match table.find? (·.1 = x) with
  | some r => literal (col r.2).toList
  | none => ⟨String.ofList (unary (bits x)), by rw [String.toList_ofList]; exact isNumber_unary _⟩

def sampleRead (n : NumLit) : Option Float32 :=
  if n.text = "1e39" then some (1 / 0)
  else if n.text = "-1e39" then some (-1 / 0)
  else
    match table.find? fun r => r.2.1 = n.text ∨ r.2.2 = n.text with
    | some r => some r.1
    | none => ofBits? (n.text.toList.length - 1)

/-- Every text of the table has a point in it, the two literals beyond the range an `e`. -/
theorem sampleRead_unary {n : NumLit} {k : Nat} (h : n.text.toList = unary k) :
    sampleRead n = ofBits? k := by
  have hnot : ∀ s : String, ('.' ∈ s.toList ∨ 'e' ∈ s.toList) → s ≠ n.text := by
    rintro s hs rfl
    rw [h] at hs
    rcases hs with hs | hs
    · exact absurd (mem_unary hs) (by decide)
    · exact absurd (mem_unary hs) (by decide)
  have htable : ∀ r ∈ table, '.' ∈ r.2.1.toList ∧ '.' ∈ r.2.2.toList := by decide +kernel
  have hfind : table.find? (fun r => r.2.1 = n.text ∨ r.2.2 = n.text) = none := by
    rw [List.find?_eq_none]
    intro r hr
    have hdots := htable r hr
    simpa using ⟨hnot _ (.inl hdots.1), hnot _ (.inl hdots.2)⟩
  unfold sampleRead
  rw [if_neg (hnot "1e39" (by decide)).symm, if_neg (hnot "-1e39" (by decide)).symm, hfind, h]
  simp [unary]

theorem sampleRead_text (col : String × String → String)
    (hcol : ∀ r ∈ table, sampleRead (literal (col r.2).toList) = some r.1) (x : Float32) :
    sampleRead (sampleText col x) = some x := by
  unfold sampleText
  split
  next r hr =>
    have hx : r.1 = x := by simpa using List.find?_some hr
    exact hx ▸ hcol r (List.mem_of_find?_eq_some hr)
  next => rw [sampleRead_unary (String.toList_ofList), ofBits?_bits]

/-- Times are their RFC 3339 texts here. -/
def sample : Codecs { s : String // Json.escapedLen s ≤ 40 } where
  showTime := Subtype.val
  readTime s := if h : Json.escapedLen s ≤ 40 then some ⟨s, h⟩ else none
  earlier a b := decide (a.val < b.val)
  printF32 := sampleText Prod.fst
  printWide := sampleText Prod.snd
  readF32 := sampleRead
  inRange _ := true
  readTime_showTime t := dif_pos t.property
  escapedLen_showTime t := t.property
  printF32_table := by decide +kernel
  printWide_table := by decide +kernel
  readF32_printF32 x _ := sampleRead_text _ (by decide +kernel) x
  readF32_printWide x _ := sampleRead_text _ (by decide +kernel) x
  readF32_above n h := by rw [sampleRead, if_pos h]
  readF32_below n h := by
    rw [sampleRead, if_neg (by rw [h]; decide), if_pos h]

/-- The same texts of floats, and other times. -/
def withTimes {Time Time' : Type} (K : Codecs Time) (showTime : Time' → String)
    (readTime : String → Option Time') (earlier : Time' → Time' → Bool)
    (hread : ∀ t, readTime (showTime t) = some t)
    (hlen : ∀ t, Json.escapedLen (showTime t) ≤ 40) : Codecs Time' :=
  { K with showTime, readTime, earlier, readTime_showTime := hread, escapedLen_showTime := hlen }

/-- A time of the sample. -/
def midnight : { s : String // Json.escapedLen s ≤ 40 } := ⟨"2026-01-01T00:00:00Z", by decide⟩

end Codecs

/-
# `Cognos.Lib.Uuid` — UUIDs and their text

A UUID is 32 hexadecimal digits.  It is written in groups of 8, 4, 4, 4 and 12 with
hyphens between them, and read in that form, bare, in braces, behind `urn:uuid:`, or as
32 digits without hyphens, in either case of the letters.
-/
import Cognos.Lib.Json.Record

/-- A UUID by its digits. -/
structure Uuid where
  digits : List (Fin 16)
  length_eq : digits.length = 32
  deriving DecidableEq

namespace Uuid

/-- `Uuid::nil()`. -/
def nil : Uuid := ⟨List.replicate 32 0, rfl⟩

/-- The UUID that starts with the last digit of `n` and goes on with zeros. -/
def numbered (n : Nat) : Uuid := ⟨Fin.ofNat 16 n :: List.replicate 31 0, rfl⟩

/-! ## Groups of digits -/

def writeDigit (d : Fin 16) : Char := Text.hexDigit d.val

/-- The digits in groups of the given sizes, hyphens between. -/
def writeGroups : List Nat → List (Fin 16) → List Char
  | [], _ => []
  | [_], ds => ds.map writeDigit
  | n :: m :: ns, ds =>
      (ds.take n).map writeDigit ++ '-' :: writeGroups (m :: ns) (ds.drop n)

def readDigit (c : Char) : Option (Fin 16) := (Text.hexValue c).map (Fin.ofNat 16)

/-- `n` digits off the front. -/
def readDigits : Nat → List Char → Option (List (Fin 16) × List Char)
  | 0, cs => some ([], cs)
  | _ + 1, [] => none
  | n + 1, c :: cs =>
      match readDigit c, readDigits n cs with
      | some d, some (ds, rest) => some (d :: ds, rest)
      | _, _ => none

/-- Groups of the given sizes with hyphens between, and nothing after them. -/
def readGroups : List Nat → List Char → Option (List (Fin 16))
  | [], cs => if cs = [] then some [] else none
  | [n], cs =>
      match readDigits n cs with
      | some (ds, []) => some ds
      | _ => none
  | n :: m :: ns, cs =>
      match readDigits n cs with
      | some (ds, '-' :: rest) => (readGroups (m :: ns) rest).map (ds ++ ·)
      | _ => none

theorem readDigits_write (ds : List (Fin 16)) (rest : List Char) :
    readDigits ds.length (ds.map writeDigit ++ rest) = some (ds, rest) := by
  induction ds with
  | nil => rfl
  | cons d ds ih =>
      have hd : readDigit (writeDigit d) = some d := by
        simp [readDigit, writeDigit, Text.hexValue_hexDigit d.isLt]
      simp [readDigits, hd, ih]

theorem readGroups_writeGroups {ns : List Nat} {ds : List (Fin 16)} (h : ds.length = ns.sum) :
    readGroups ns (writeGroups ns ds) = some ds := by
  induction ns generalizing ds with
  | nil =>
      rw [List.sum_nil, List.length_eq_zero_iff] at h
      subst h
      rfl
  | cons n ns ih =>
      cases ns with
      | nil =>
          have hn : n = ds.length := by simpa using h.symm
          have := readDigits_write ds []
          rw [List.append_nil, ← hn] at this
          simp [readGroups, writeGroups, this]
      | cons m ns =>
          simp only [List.sum_cons] at h ih
          have hn : (ds.take n).length = n := by
            rw [List.length_take]
            omega
          have hread := readDigits_write (ds.take n) ('-' :: writeGroups (m :: ns) (ds.drop n))
          rw [hn] at hread
          have hlen : (ds.drop n).length = m + ns.sum := by
            rw [List.length_drop]
            omega
          have hrest := ih hlen
          simp only [readGroups, writeGroups, hread, hrest, Option.map_some,
            List.take_append_drop]

/-! ## The text of a UUID -/

/-- The sizes of the groups. -/
def groups : List Nat := [8, 4, 4, 4, 12]

def ofDigits? (ds : Option (List (Fin 16))) : Option Uuid :=
  ds.bind fun ds => if h : ds.length = 32 then some ⟨ds, h⟩ else none

/-- `id.to_string()`. -/
def text (id : Uuid) : String := String.ofList (writeGroups groups id.digits)

/-- `Uuid::parse_str(s)`. -/
def parse? (s : String) : Option Uuid :=
  let cs := s.toList
  if cs.length = 32 then ofDigits? (readGroups [32] cs)
  else if cs.length = 36 then ofDigits? (readGroups groups cs)
  else if cs.length = 38 ∧ cs.head? = some '\x7b' ∧ cs.getLast? = some '\x7d' then
    ofDigits? (readGroups groups (cs.drop 1).dropLast)
  else if cs.length = 45 ∧ "urn:uuid:".toList <+: cs then
    ofDigits? (readGroups groups (cs.drop 9))
  else none

theorem length_writeGroups {ns : List Nat} {ds : List (Fin 16)} (h : ds.length = ns.sum)
    (hne : ns ≠ []) : (writeGroups ns ds).length + 1 = ns.sum + ns.length := by
  induction ns generalizing ds with
  | nil => exact absurd rfl hne
  | cons n ns ih =>
      cases ns with
      | nil => simpa [writeGroups] using h
      | cons m ns =>
          simp only [List.sum_cons] at h ih
          have hdrop : (ds.drop n).length = m + ns.sum := by
            rw [List.length_drop]
            omega
          have hlen := ih hdrop (by simp)
          simp only [writeGroups, List.length_append, List.length_map, List.length_take,
            List.length_cons, List.sum_cons] at hlen ⊢
          omega

theorem length_text (id : Uuid) : id.text.toList.length = 36 := by
  have hsum : id.digits.length = groups.sum := id.length_eq
  have h := length_writeGroups hsum (by decide)
  rw [text, String.toList_ofList]
  simpa [groups] using h

/-- A UUID reads back from its text. -/
@[simp] theorem parse?_text (id : Uuid) : parse? id.text = some id := by
  have hlen := id.length_text
  have hgroups : readGroups groups id.text.toList = some id.digits := by
    rw [text, String.toList_ofList]
    exact readGroups_writeGroups id.length_eq
  simp [parse?, hlen, hgroups, ofDigits?, id.length_eq]

theorem text_injective : Function.Injective text := by
  intro id id' h
  have hread := congrArg parse? h
  rw [parse?_text, parse?_text] at hread
  exact Option.some.inj hread

theorem mem_writeGroups {ns : List Nat} {ds : List (Fin 16)} :
    ∀ c ∈ writeGroups ns ds, c = '-' ∨ ∃ d, c = writeDigit d := by
  induction ns generalizing ds with
  | nil => intro c hc; cases hc
  | cons n ns ih =>
      intro c hc
      cases ns with
      | nil =>
          obtain ⟨d, -, rfl⟩ := List.mem_map.mp hc
          exact Or.inr ⟨d, rfl⟩
      | cons m ns =>
          rcases List.mem_append.mp hc with hc | hc
          · obtain ⟨d, -, rfl⟩ := List.mem_map.mp hc
            exact Or.inr ⟨d, rfl⟩
          · rcases List.mem_cons.mp hc with rfl | hc
            · exact Or.inl rfl
            · exact ih c hc

/-- In JSON, the text of a UUID takes 36 bytes and two quotes. -/
theorem escapedLen_text (id : Uuid) : Json.escapedLen id.text = 36 := by
  have hone : ∀ c ∈ id.text.toList, Json.escapedSize c = 1 := by
    intro c hc
    rw [text, String.toList_ofList] at hc
    rcases mem_writeGroups c hc with rfl | ⟨d, rfl⟩
    · decide
    · have hall : ∀ d, Json.escapedSize (writeDigit d) = 1 := by decide
      exact hall d
  rw [Json.escapedLen, List.map_congr_left hone, List.map_const', List.sum_replicate_nat,
    id.length_text, Nat.mul_one]

end Uuid

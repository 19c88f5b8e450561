/-
# `Cognos.Lib.ByteIndex` — Rust's byte indices into a `str`

`s.find(pat)` is a number of bytes, and `&s[i..]` panics where `i` is not between two characters
or lies beyond the end.  An index that was found in one string is good for another one only
where that has a boundary at the same place.

    splitAt_iff     where a string can be cut
    find_iff        the text before the first of a pattern, and its bytes
    split_of_lower  a slash in the lower case of a text comes from a slash in the text
-/
import Mathlib
import Cognos.Lib.Text

namespace Text

/-! ## Cutting -/

/-- How many bytes the characters take. -/
def byteSize (cs : List Char) : Nat := (cs.map Char.utf8Size).sum

@[simp] theorem byteSize_nil : byteSize [] = 0 := rfl

@[simp] theorem byteSize_cons (c : Char) (cs : List Char) :
    byteSize (c :: cs) = c.utf8Size + byteSize cs := by
  rw [byteSize, List.map_cons, List.sum_cons]
  rfl

/-- The characters before and behind a byte index that is a boundary. -/
def splitBytes : List Char → Nat → Option (List Char × List Char)
  | cs, 0 => some ([], cs)
  | [], _ + 1 => none
  | c :: cs, n + 1 =>
      if c.utf8Size ≤ n + 1 then
        (splitBytes cs (n + 1 - c.utf8Size)).map fun parts => (c :: parts.1, parts.2)
      else none

/-- `&s[i..]`; `none` is the panic. -/
def sliceFrom (s : String) (i : Nat) : Option String :=
  (splitBytes s.toList i).map fun parts => String.ofList parts.2

/-- `&s[..i]`; `none` is the panic. -/
def sliceTo (s : String) (i : Nat) : Option String :=
  (splitBytes s.toList i).map fun parts => String.ofList parts.1

theorem splitBytes_eq_some_iff {cs pre post : List Char} {n : Nat} :
    splitBytes cs n = some (pre, post) ↔ cs = pre ++ post ∧ byteSize pre = n := by
  induction cs generalizing n pre with
  | nil =>
      cases n with
      | zero =>
          rw [splitBytes, Option.some.injEq, Prod.mk.injEq]
          constructor
          · rintro ⟨rfl, rfl⟩
            exact ⟨rfl, rfl⟩
          · rintro ⟨happend, -⟩
            obtain ⟨rfl, rfl⟩ := List.append_eq_nil_iff.mp happend.symm
            exact ⟨rfl, rfl⟩
      | succ n =>
          refine iff_of_false nofun ?_
          rintro ⟨happend, hsize⟩
          obtain ⟨rfl, rfl⟩ := List.append_eq_nil_iff.mp happend.symm
          cases hsize
  | cons c cs ih =>
      have hpos := c.utf8Size_pos
      cases n with
      | zero =>
          rw [splitBytes, Option.some.injEq, Prod.mk.injEq]
          constructor
          · rintro ⟨rfl, rfl⟩
            exact ⟨rfl, rfl⟩
          · rintro ⟨happend, hsize⟩
            cases pre with
            | nil => exact ⟨rfl, happend⟩
            | cons d pre =>
                have := d.utf8Size_pos
                rw [byteSize_cons] at hsize
                omega
      | succ n =>
          rw [splitBytes]
          constructor
          · intro h
            split_ifs at h with hle
            obtain ⟨⟨pre', post'⟩, hrest, heq⟩ := Option.map_eq_some_iff.mp h
            obtain ⟨rfl, rfl⟩ := Prod.mk.inj heq
            obtain ⟨happend, hsize⟩ := ih.mp hrest
            refine ⟨congrArg (c :: ·) happend, ?_⟩
            rw [byteSize_cons, hsize]
            omega
          · rintro ⟨happend, hsize⟩
            cases pre with
            | nil => cases hsize
            | cons d pre =>
                obtain ⟨rfl, hcs⟩ := List.cons.inj happend
                rw [byteSize_cons] at hsize
                have hle : c.utf8Size ≤ n + 1 := by omega
                have hrest : splitBytes cs (n + 1 - c.utf8Size) = some (pre, post) :=
                  ih.mpr ⟨hcs, by omega⟩
                rw [if_pos hle, hrest]
                rfl

theorem isSome_sliceFrom {s : String} {n : Nat} :
    (sliceFrom s n).isSome = true ↔ ∃ pre post, s.toList = pre ++ post ∧ byteSize pre = n := by
  rw [sliceFrom, Option.isSome_map, Option.isSome_iff_exists]
  constructor
  · rintro ⟨⟨pre, post⟩, h⟩
    exact ⟨pre, post, splitBytes_eq_some_iff.mp h⟩
  · rintro ⟨pre, post, h⟩
    exact ⟨(pre, post), splitBytes_eq_some_iff.mpr h⟩

/-! ## Searching -/

/-- The characters before the first of a pattern. -/
def before (pat : List Char) : List Char → Option (List Char)
  | [] => if pat = [] then some [] else none
  | c :: cs => if pat <+: c :: cs then some [] else (before pat cs).map (c :: ·)

/-- `s.find(pat)`: the byte index of the first of a pattern. -/
def find (s pat : String) : Option Nat := (before pat.toList s.toList).map byteSize

/-- `s.find(p)`: the byte index of the first character that `p` is true of. -/
def findChar (p : Char → Bool) (s : String) : Option Nat :=
  if s.toList.any p then some (byteSize (s.toList.takeWhile fun c => !p c)) else none

/-- `pre` is what stands before the first of a pattern in a text. -/
def IsBefore (pat cs pre : List Char) : Prop :=
  (∃ rest, cs = pre ++ rest ∧ pat <+: rest) ∧
    ∀ pre' rest', cs = pre' ++ rest' → pat <+: rest' → pre <+: pre'

theorem before_eq_some_iff {pat cs pre : List Char} :
    before pat cs = some pre ↔ IsBefore pat cs pre := by
  induction cs generalizing pre with
  | nil =>
      rw [before]
      constructor
      · intro h
        split_ifs at h with hnil
        obtain rfl := Option.some.inj h
        exact ⟨⟨[], rfl, hnil ▸ List.nil_prefix⟩, fun _ _ _ _ => List.nil_prefix⟩
      · rintro ⟨⟨rest, happend, hpat⟩, -⟩
        obtain ⟨rfl, rfl⟩ := List.append_eq_nil_iff.mp happend.symm
        rw [if_pos (List.prefix_nil.mp hpat)]
  | cons c cs ih =>
      rw [before]
      split_ifs with hhere
      · constructor
        · intro h
          obtain rfl := Option.some.inj h
          exact ⟨⟨c :: cs, rfl, hhere⟩, fun _ _ _ _ => List.nil_prefix⟩
        · rintro ⟨-, hfirst⟩
          rw [List.prefix_nil.mp (hfirst [] (c :: cs) rfl hhere)]
      · rw [Option.map_eq_some_iff]
        constructor
        · rintro ⟨pre, hpre, rfl⟩
          obtain ⟨⟨rest, rfl, hpat⟩, hfirst⟩ := ih.mp hpre
          refine ⟨⟨rest, rfl, hpat⟩, ?_⟩
          intro pre' rest' happend hpat'
          cases pre' with
          | nil =>
              obtain rfl : c :: (pre ++ rest) = rest' := happend
              exact absurd hpat' hhere
          | cons d pre' =>
              obtain ⟨rfl, hcs⟩ := List.cons.inj happend
              exact List.cons_prefix_cons.mpr ⟨rfl, hfirst pre' rest' hcs hpat'⟩
        · rintro ⟨⟨rest, happend, hpat⟩, hfirst⟩
          cases pre with
          | nil =>
              obtain rfl : c :: cs = rest := happend
              exact absurd hpat hhere
          | cons d pre =>
              obtain ⟨rfl, rfl⟩ := List.cons.inj happend
              refine ⟨pre, ih.mpr ⟨⟨rest, rfl, hpat⟩, ?_⟩, rfl⟩
              intro pre' rest' happend' hpat'
              have hlonger := hfirst (c :: pre') rest' (by rw [happend']; rfl) hpat'
              exact (List.cons_prefix_cons.mp hlonger).2

theorem before_eq_none_iff {pat cs : List Char} : before pat cs = none ↔ ¬ pat <:+: cs := by
  induction cs with
  | nil =>
      rw [before, List.infix_nil]
      split_ifs with hnil
      · exact iff_of_false nofun fun h => h hnil
      · exact iff_of_true rfl hnil
  | cons c cs ih =>
      rw [before, List.infix_cons_iff, not_or]
      split_ifs with hhere
      · exact iff_of_false nofun fun h => h.1 hhere
      · rw [Option.map_eq_none_iff, ih]
        exact ⟨fun h => ⟨hhere, h⟩, fun h => h.2⟩

/-- Nothing is found where the pattern does not occur. -/
theorem find_eq_none_iff {s pat : String} : find s pat = none ↔ contains s pat = false := by
  rw [find, Option.map_eq_none_iff, before_eq_none_iff, contains, decide_eq_false_iff_not]

theorem find_iff {s pat : String} {n : Nat} :
    find s pat = some n ↔ ∃ pre, IsBefore pat.toList s.toList pre ∧ byteSize pre = n := by
  rw [find, Option.map_eq_some_iff]
  constructor
  · rintro ⟨pre, hpre, hn⟩
    exact ⟨pre, before_eq_some_iff.mp hpre, hn⟩
  · rintro ⟨pre, hpre, hn⟩
    exact ⟨pre, before_eq_some_iff.mpr hpre, hn⟩

/-- Up to where a character is found, or to the end, a string can always be cut. -/
theorem sliceTo_findChar (p : Char → Bool) (s : String) :
    sliceTo s ((findChar p s).getD (byteSize s.toList)) =
      some (String.ofList (s.toList.takeWhile fun c => !p c)) := by
  have hcut : ∀ pre post, s.toList = pre ++ post →
      sliceTo s (byteSize pre) = some (String.ofList pre) := by
    intro pre post happend
    rw [sliceTo, splitBytes_eq_some_iff.mpr ⟨happend, rfl⟩]
    rfl
  rw [findChar]
  split_ifs with hany
  · exact hcut _ _ (List.takeWhile_append_dropWhile (p := fun c => !p c)).symm
  · have hall : s.toList.takeWhile (fun c => !p c) = s.toList := by
      rw [List.takeWhile_eq_self_iff]
      intro c hc
      rw [Bool.not_eq_true', ← Bool.not_eq_true]
      exact fun hp => hany (List.any_eq_true.mpr ⟨c, hc, hp⟩)
    rw [hall]
    exact hcut s.toList [] (List.append_nil _).symm

/-! ## The lower case -/

theorem byteSize_map_plainSigma (cs : List Char) :
    byteSize (cs.map plainSigma) = byteSize cs := by
  induction cs with
  | nil => rfl
  | cons c cs ih =>
      have hc : (plainSigma c).utf8Size = c.utf8Size := by
        unfold plainSigma
        split_ifs with hs
        · rw [hs]
          rfl
        · rfl
      rw [List.map_cons, byteSize_cons, byteSize_cons, ih, hc]

/-- A pattern without a sigma is at the same byte, whatever the sigmas are. -/
theorem before_map_plainSigma {pat : List Char} (h : NoSigma pat) (cs : List Char) :
    (before pat (cs.map plainSigma)).map byteSize = (before pat cs).map byteSize := by
  have hmap : before pat (cs.map plainSigma) = (before pat cs).map (List.map plainSigma) := by
    induction cs with
    | nil =>
        rw [List.map_nil, before]
        split_ifs <;> rfl
    | cons c cs ih =>
        have hhere : pat <+: (c :: cs).map plainSigma ↔ pat <+: c :: cs :=
          prefix_map_plainSigma h
        rw [List.map_cons] at hhere
        rw [List.map_cons, before, before, ih]
        simp only [hhere]
        split_ifs
        · rfl
        · rw [Option.map_map, Option.map_map]
          rfl
  rw [hmap, Option.map_map]
  exact Option.map_congr fun pre _ => byteSize_map_plainSigma pre

/-- A pattern without a sigma is found in the lower case where it is found when each character is
lower-cased by itself. -/
theorem find_toLowercase {pat : String} (h : NoSigma pat.toList) (s : String) :
    find (toLowercase s) pat = find (String.ofList (s.toList.flatMap lowerChar)) pat := by
  rw [find, find, toLowercase, String.toList_ofList, String.toList_ofList,
    ← before_map_plainSigma h, map_plainSigma_lowerFrom, before_map_plainSigma h]

theorem lower_runs_bound : ∀ r ∈ lowerRuns, 107 ≤ r.2.2.2 := by decide +kernel

/-- Beyond ASCII no code point has a lower case among the punctuation. -/
theorem lowerCode_ge {n : Nat} (h : 107 ≤ n) : 107 ≤ lowerCode n := by
  unfold lowerCode
  split
  · next r hr =>
      have hrun := lower_runs_bound r (List.mem_of_find?_eq_some hr)
      exact hrun.trans (Nat.le_add_right _ _)
  · exact h

/-- Only a slash has a slash for its lower case. -/
theorem eq_slash_of_mem_lowerChar {c : Char} (h : '/' ∈ lowerChar c) : c = '/' := by
  unfold lowerChar at h
  split_ifs at h with hascii hdot
  · have hall : ∀ n < 128, '/' = (Char.ofNat n).toLower → Char.ofNat n = '/' := by decide
    have hc := hall c.toNat hascii
    rw [Char.ofNat_toNat] at hc
    exact hc (List.mem_singleton.mp h)
  · exact absurd h (by decide)
  · have hge := lowerCode_ge (by omega : 107 ≤ c.toNat)
    generalize lowerCode c.toNat = n at h hge
    have hn : 47 = (Char.ofNat n).toNat := congrArg Char.toNat (List.mem_singleton.mp h)
    rw [Char.toNat_ofNat] at hn
    split_ifs at hn
    omega

theorem flatMap_lowerChar_eq_nil {cs : List Char} (h : cs.flatMap lowerChar = []) : cs = [] := by
  have hne : ∀ c, lowerChar c ≠ [] := by
    intro c
    unfold lowerChar
    split_ifs
    · exact List.cons_ne_nil _ _
    · exact List.cons_ne_nil _ _
    · exact List.cons_ne_nil _ _
  cases cs with
  | nil => rfl
  | cons c cs =>
      rw [List.flatMap_cons, List.append_eq_nil_iff] at h
      exact absurd h.1 (hne c)

/-- A slash in the lower case of a text splits the text. -/
theorem split_of_lower {cs pre post : List Char} (h : cs.flatMap lowerChar = pre ++ '/' :: post) :
    ∃ front back, cs = front ++ '/' :: back ∧ front.flatMap lowerChar = pre ∧
      back.flatMap lowerChar = post := by
  induction cs generalizing pre with
  | nil => exact absurd h.symm (List.append_ne_nil_of_right_ne_nil _ (List.cons_ne_nil _ _))
  | cons c cs ih =>
      rw [List.flatMap_cons, List.append_eq_append_iff] at h
      rcases h with ⟨mid, rfl, hrest⟩ | ⟨mid, hmid, hrest⟩
      · obtain ⟨front, back, rfl, rfl, rfl⟩ := ih hrest
        exact ⟨c :: front, back, rfl, by rw [List.flatMap_cons], rfl⟩
      · cases mid with
        | nil =>
            have hnil : cs.flatMap lowerChar = [] ++ '/' :: post := hrest.symm
            obtain ⟨front, back, rfl, hfront, rfl⟩ := ih hnil
            rw [List.append_nil] at hmid
            refine ⟨c :: front, back, rfl, ?_, rfl⟩
            rw [List.flatMap_cons, hfront, List.append_nil, hmid]
        | cons d mid =>
            obtain ⟨rfl, rfl⟩ := List.cons.inj hrest
            obtain rfl := eq_slash_of_mem_lowerChar
              (hmid ▸ List.mem_append_right _ List.mem_cons_self)
            have hslash : ['/'] = pre ++ '/' :: mid := hmid
            cases pre with
            | nil =>
                obtain rfl : [] = mid := (List.cons.inj hslash).2
                exact ⟨[], cs, rfl, rfl, rfl⟩
            | cons e pre =>
                exact absurd (List.cons.inj hslash).2.symm
                  (List.append_ne_nil_of_right_ne_nil _ (List.cons_ne_nil _ _))

end Text

/-
# `Cognos.Lib.IgnoreCase` — Python's `re` on a literal, case ignored

`re.compile(p, re.IGNORECASE).search(s)` for a pattern that is a literal, with or without
a `$` behind it, and how it compares to lower-casing the text and looking for the literal.
The two are not the same test.  `re` compares one character with one character, after
lower-casing it by itself, and lets `i` stand for `ı` and `s` for `ſ` as well; the lower
case of `İ` is two characters, so it can break up a word in the one test and not in the
other.

    contains_search   what the lower-cased text contains, `search` finds
    search_contains   and the other way round, where the literal has no `i` and no `s`
-/
import Mathlib
import Cognos.Lib.Text

namespace PyRe

open Text (lowerChar toLowercase)

/-! ## Searching -/

/-- `Py_UNICODE_TOLOWER`: the lower case of a character as one character. -/
def lower (c : Char) : Char := (lowerChar c).headD c

/-- What a letter of a pattern stands for besides the characters with its lower case. -/
def extraCases : Char → List Char
  | 'i' => ['ı']
  | 's' => ['ſ']
  | _ => []

/-- The lower-case letter `l` of a pattern matches `c`. -/
def matchesChar (l c : Char) : Bool := lower c == l || (extraCases l).contains (lower c)

/-- A literal in lower case, and whether a `$` follows it. -/
structure Pattern where
  literal : List Char
  dollar : Bool
  deriving DecidableEq, Repr

/-- The literal at the front of a text: what is left behind it. -/
def matchLiteral : List Char → List Char → Option (List Char)
  | [], s => some s
  | _ :: _, [] => none
  | l :: ls, c :: s => if matchesChar l c then matchLiteral ls s else none

/-- `$`: at the end, or before a line feed there. -/
def atEnd (s : List Char) : Bool := s == [] || s == ['\n']

/-- `pattern.match(s)`. -/
def Pattern.matchFront (p : Pattern) (s : List Char) : Bool :=
  match matchLiteral p.literal s with
  | some rest => !p.dollar || atEnd rest
  | none => false

/-- `pattern.search(s)`. -/
def Pattern.search (p : Pattern) : List Char → Bool
  | [] => p.matchFront []
  | c :: s => p.matchFront (c :: s) || p.search s

/-- `text` reads as the literal `ls`. -/
abbrev ReadsAs (ls text : List Char) : Prop := List.Forall₂ (matchesChar · · = true) ls text

theorem matchLiteral_eq_some {ls s rest : List Char} :
    matchLiteral ls s = some rest ↔ ∃ text, ReadsAs ls text ∧ s = text ++ rest := by
  induction ls generalizing s with
  | nil =>
      constructor
      · intro h
        exact ⟨[], .nil, Option.some.inj h⟩
      · rintro ⟨text, ht, rfl⟩
        cases ht
        rfl
  | cons l ls ih =>
      constructor
      · intro h
        cases s with
        | nil => cases h
        | cons c s =>
            rw [matchLiteral] at h
            split at h
            · next hc =>
                obtain ⟨text, ht, rfl⟩ := ih.mp h
                exact ⟨c :: text, .cons hc ht, rfl⟩
            · cases h
      · rintro ⟨text, ht, rfl⟩
        cases ht with
        | cons hc ht =>
            rw [List.cons_append, matchLiteral, if_pos hc]
            exact ih.mpr ⟨_, ht, rfl⟩

theorem matchFront_iff {p : Pattern} {s : List Char} :
    p.matchFront s = true ↔ ∃ text rest, ReadsAs p.literal text ∧ s = text ++ rest ∧
      (p.dollar = true → atEnd rest = true) := by
  unfold Pattern.matchFront
  constructor
  · intro h
    cases hm : matchLiteral p.literal s with
    | none =>
        rw [hm] at h
        cases h
    | some rest =>
        rw [hm] at h
        obtain ⟨text, ht, hs⟩ := matchLiteral_eq_some.mp hm
        exact ⟨text, rest, ht, hs, by simpa [imp_iff_not_or] using h⟩
  · rintro ⟨text, rest, ht, hs, hend⟩
    rw [matchLiteral_eq_some.mpr ⟨text, ht, hs⟩]
    simpa [imp_iff_not_or] using hend

/-- A search finds the pattern somewhere. -/
theorem search_iff {p : Pattern} {s : List Char} :
    p.search s = true ↔ ∃ pre text rest, ReadsAs p.literal text ∧ s = pre ++ (text ++ rest) ∧
      (p.dollar = true → atEnd rest = true) := by
  induction s with
  | nil =>
      rw [Pattern.search, matchFront_iff]
      constructor
      · rintro ⟨text, rest, h⟩
        exact ⟨[], text, rest, h⟩
      · rintro ⟨pre, text, rest, ht, hs, hend⟩
        obtain ⟨-, hs⟩ := List.append_eq_nil_iff.mp hs.symm
        exact ⟨text, rest, ht, hs.symm, hend⟩
  | cons c s ih =>
      rw [Pattern.search, Bool.or_eq_true, matchFront_iff, ih]
      constructor
      · rintro (⟨text, rest, h⟩ | ⟨pre, text, rest, ht, hs, hend⟩)
        · exact ⟨[], text, rest, h⟩
        · exact ⟨c :: pre, text, rest, ht, by rw [hs]; rfl, hend⟩
      · rintro ⟨pre, text, rest, ht, hs, hend⟩
        cases pre with
        | nil => exact Or.inl ⟨text, rest, ht, hs, hend⟩
        | cons d pre =>
            obtain ⟨-, hs⟩ := List.cons.inj hs
            exact Or.inr ⟨pre, text, rest, ht, hs, hend⟩

/-! ## Against the lower-cased text -/

/-- The dot over a lower-case `İ`. -/
def dotAbove : Char := Char.ofNat 0x307

/-- One character has one lower-case character, `İ` apart. -/
theorem lowerChar_cases (c : Char) : lowerChar c = [lower c] ∨ lowerChar c = ['i', dotAbove] := by
  unfold lower
  unfold lowerChar
  split
  · exact Or.inl rfl
  · split
    · exact Or.inr rfl
    · exact Or.inl rfl

theorem matchesChar_of_lower {l c : Char} (h : lower c = l) : matchesChar l c = true := by
  rw [matchesChar, h, beq_self_eq_true, Bool.true_or]

/-- A literal at the front of the lower-cased text is read off its first characters. -/
theorem readsAs_of_prefix {ls s : List Char} (hdot : dotAbove ∉ ls) (hlast : ls.getLast? ≠ some 'i')
    (h : ls <+: s.flatMap lowerChar) : ∃ text rest, ReadsAs ls text ∧ s = text ++ rest := by
  induction ls generalizing s with
  | nil => exact ⟨[], s, .nil, rfl⟩
  | cons l ls ih =>
      cases s with
      | nil => simp at h
      | cons c s =>
          rw [List.flatMap_cons] at h
          rcases lowerChar_cases c with hc | hc
          · rw [hc, List.singleton_append, List.cons_prefix_cons] at h
            obtain ⟨rfl, h⟩ := h
            have hlast' : ls.getLast? ≠ some 'i' := by
              intro hl
              cases ls with
              | nil => cases hl
              | cons l' ls => exact hlast (by rw [List.getLast?_cons_cons]; exact hl)
            obtain ⟨text, rest, ht, rfl⟩ := ih (fun hm => hdot (List.mem_cons_of_mem _ hm)) hlast' h
            exact ⟨c :: text, rest, .cons (matchesChar_of_lower rfl) ht, rfl⟩
          · -- an `i` from `İ` has the dot behind it, which no literal goes on with
            rw [hc, List.cons_append, List.cons_prefix_cons] at h
            obtain ⟨rfl, h⟩ := h
            cases ls with
            | nil => exact absurd rfl hlast
            | cons l' ls =>
                rw [List.cons_append, List.cons_prefix_cons] at h
                exact absurd (by rw [h.1]; simp) hdot

/-- What the lower-cased text contains is found in the text with the case ignored. -/
theorem contains_search {p : String} {s : String} (hsigma : Text.NoSigma p.toList)
    (hdot : dotAbove ∉ p.toList)
    (hlast : p.toList.getLast? ≠ some 'i') (hne : p.toList ≠ [])
    (h : Text.contains (toLowercase s) p = true) :
    (Pattern.mk p.toList false).search s.toList = true := by
  rw [Text.contains_toLowercase_iff hsigma] at h
  rw [search_iff]
  suffices hfind : ∃ pre text rest, ReadsAs p.toList text ∧ s.toList = pre ++ (text ++ rest) by
    obtain ⟨pre, text, rest, ht, hs⟩ := hfind
    exact ⟨pre, text, rest, ht, hs, fun hd => absurd hd Bool.false_ne_true⟩
  generalize s.toList = cs at h ⊢
  induction cs with
  | nil => exact absurd (List.eq_nil_of_infix_nil h) hne
  | cons c cs ih =>
      -- where the literal starts: at this character, or in the text behind it
      have hhere : p.toList <+: (c :: cs).flatMap lowerChar →
          ∃ pre text rest, ReadsAs p.toList text ∧ c :: cs = pre ++ (text ++ rest) := by
        intro hp
        obtain ⟨text, rest, ht, hs⟩ := readsAs_of_prefix hdot hlast hp
        exact ⟨[], text, rest, ht, hs⟩
      have hthere : p.toList <:+: cs.flatMap lowerChar →
          ∃ pre text rest, ReadsAs p.toList text ∧ c :: cs = pre ++ (text ++ rest) := by
        intro hp
        obtain ⟨pre, text, rest, ht, hs⟩ := ih hp
        exact ⟨c :: pre, text, rest, ht, by rw [hs]; rfl⟩
      rw [List.flatMap_cons] at h hhere
      rcases lowerChar_cases c with hc | hc
      · rw [hc, List.singleton_append, List.infix_cons_iff] at h
        rw [hc, List.singleton_append] at hhere
        exact h.elim hhere hthere
      · rw [hc, List.cons_append, List.infix_cons_iff, List.cons_append, List.infix_cons_iff] at h
        rw [hc] at hhere
        rcases h with h | h | h
        · exact hhere h
        · -- nor does a literal start with the dot
          cases hl : p.toList with
          | nil => exact absurd hl hne
          | cons l ls =>
              rw [hl, List.cons_prefix_cons] at h
              exact absurd (by rw [hl, h.1]; exact List.mem_cons_self) hdot
        · exact hthere h

theorem lowerChar_of_matches {l c : Char} (hi : l ≠ 'i') (hs : l ≠ 's')
    (h : matchesChar l c = true) : lowerChar c = [l] := by
  have hextra : extraCases l = [] := by
    unfold extraCases
    split
    · exact absurd rfl hi
    · exact absurd rfl hs
    · rfl
  rw [matchesChar, hextra, List.contains_nil, Bool.or_false, beq_iff_eq] at h
  rcases lowerChar_cases c with hc | hc
  · rw [hc, h]
  · have hlow : lower c = 'i' := by rw [lower, hc]; rfl
    exact absurd (h.symm.trans hlow) hi

theorem flatMap_lowerChar_of_readsAs {ls text : List Char} (hi : 'i' ∉ ls) (hs : 's' ∉ ls)
    (h : ReadsAs ls text) : text.flatMap lowerChar = ls := by
  induction h with
  | nil => rfl
  | cons hc _ ih =>
      rw [List.flatMap_cons,
        lowerChar_of_matches (fun hl => hi (hl ▸ List.mem_cons_self))
          (fun hl => hs (hl ▸ List.mem_cons_self)) hc,
        ih (fun hm => hi (List.mem_cons_of_mem _ hm)) (fun hm => hs (List.mem_cons_of_mem _ hm))]
      rfl

/-- Without an `i` and an `s` in the literal, nothing else is found. -/
theorem search_contains {p : String} {dollar : Bool} {s : String}
    (hsigma : Text.NoSigma p.toList) (hi : 'i' ∉ p.toList) (hs : 's' ∉ p.toList)
    (h : (Pattern.mk p.toList dollar).search s.toList = true) :
    Text.contains (toLowercase s) p = true := by
  obtain ⟨pre, text, rest, ht, htext, -⟩ := search_iff.mp h
  rw [Text.contains_toLowercase_iff hsigma]
  refine ⟨pre.flatMap lowerChar, rest.flatMap lowerChar, ?_⟩
  rw [htext, List.flatMap_append, List.flatMap_append,
    flatMap_lowerChar_of_readsAs hi hs ht, List.append_assoc]

end PyRe

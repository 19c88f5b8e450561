/-
# `Cognos.Lib.Gbnf` — GBNF grammars, and what they derive

The rules of a grammar for constrained generation: literals, classes of characters, names of
other rules, sequences, alternatives and repetitions.  `Derives` is the language of a
right-hand side; one lemma for each form says what its derivations look like.

    sample         some text a right-hand side derives, where recursion allows one
    derives_sample   it is derived
-/
import Mathlib
import Cognos.Lib.Text

namespace Gbnf

/-! ## Rules -/

/-- The right-hand side of a rule. -/
inductive Rhs
  | lit (s : String)
  | cls (ranges : List (Char × Char))
  | rule (name : String)
  | seq (rs : List Rhs)
  | alt (rs : List Rhs)
  /-- `r{lo,hi}`; without `hi`, any number from `lo` on. -/
  | rep (r : Rhs) (lo : Nat) (hi : Option Nat)

/-- `r?` -/
def Rhs.opt (r : Rhs) : Rhs := .rep r 0 (some 1)

/-- `r*` -/
def Rhs.star (r : Rhs) : Rhs := .rep r 0 none

/-- `r+` -/
def Rhs.plus (r : Rhs) : Rhs := .rep r 1 none

abbrev Grammar := List (String × Rhs)

/-- The texts of a right-hand side. -/
inductive Derives (g : Grammar) : Rhs → List Char → Prop
  | lit {s : String} : Derives g (.lit s) s.toList
  | cls {ranges : List (Char × Char)} {c : Char} :
      Text.inClass ranges c = true → Derives g (.cls ranges) [c]
  | rule {name : String} {r : Rhs} {cs : List Char} :
      g.lookup name = some r → Derives g r cs → Derives g (.rule name) cs
  | nil : Derives g (.seq []) []
  | cons {r : Rhs} {rs : List Rhs} {cs ds : List Char} :
      Derives g r cs → Derives g (.seq rs) ds → Derives g (.seq (r :: rs)) (cs ++ ds)
  | alt {rs : List Rhs} {r : Rhs} {cs : List Char} :
      r ∈ rs → Derives g r cs → Derives g (.alt rs) cs
  | rep {r : Rhs} {lo : Nat} {hi : Option Nat} {css : List (List Char)} :
      (∀ cs ∈ css, Derives g r cs) → lo ≤ css.length → (∀ h ∈ hi, css.length ≤ h) →
      Derives g (.rep r lo hi) css.flatten

/-! ## The shape of a derivation -/

section Shape

variable {g : Grammar} {cs : List Char}

theorem derives_lit_iff {s : String} : Derives g (.lit s) cs ↔ cs = s.toList := by
  constructor
  · rintro ⟨⟩
    rfl
  · rintro rfl
    exact .lit

theorem derives_cls_iff {ranges : List (Char × Char)} :
    Derives g (.cls ranges) cs ↔ ∃ c, cs = [c] ∧ Text.inClass ranges c = true := by
  constructor
  · intro h
    cases h with
    | cls hc => exact ⟨_, rfl, hc⟩
  · rintro ⟨c, rfl, hc⟩
    exact .cls hc

theorem derives_rule_iff {name : String} :
    Derives g (.rule name) cs ↔ ∃ r, g.lookup name = some r ∧ Derives g r cs := by
  constructor
  · intro h
    cases h with
    | rule hr hcs => exact ⟨_, hr, hcs⟩
  · rintro ⟨r, hr, hcs⟩
    exact .rule hr hcs

theorem derives_nil_iff : Derives g (.seq []) cs ↔ cs = [] := by
  constructor
  · rintro ⟨⟩
    rfl
  · rintro rfl
    exact .nil

theorem derives_cons_iff {r : Rhs} {rs : List Rhs} : Derives g (.seq (r :: rs)) cs ↔
    ∃ ds es, cs = ds ++ es ∧ Derives g r ds ∧ Derives g (.seq rs) es := by
  constructor
  · intro h
    cases h with
    | cons hr hrs => exact ⟨_, _, rfl, hr, hrs⟩
  · rintro ⟨ds, es, rfl, hr, hrs⟩
    exact .cons hr hrs

theorem derives_alt_iff {rs : List Rhs} :
    Derives g (.alt rs) cs ↔ ∃ r ∈ rs, Derives g r cs := by
  constructor
  · intro h
    cases h with
    | alt hr hcs => exact ⟨_, hr, hcs⟩
  · rintro ⟨r, hr, hcs⟩
    exact .alt hr hcs

theorem derives_rep_iff {r : Rhs} {lo : Nat} {hi : Option Nat} : Derives g (.rep r lo hi) cs ↔
    ∃ css : List (List Char), cs = css.flatten ∧ (∀ ds ∈ css, Derives g r ds) ∧ lo ≤ css.length ∧
      ∀ h ∈ hi, css.length ≤ h := by
  constructor
  · intro h
    cases h with
    | rep hall hlo hhi => exact ⟨_, rfl, hall, hlo, hhi⟩
  · rintro ⟨css, rfl, hall, hlo, hhi⟩
    exact .rep hall hlo hhi

theorem derives_opt_iff {r : Rhs} : Derives g r.opt cs ↔ cs = [] ∨ Derives g r cs := by
  rw [Rhs.opt, derives_rep_iff]
  constructor
  · rintro ⟨css, rfl, hall, -, hhi⟩
    have hlength := hhi 1 rfl
    match css, hlength with
    | [], _ => exact Or.inl rfl
    | [ds], _ =>
        right
        rw [List.flatten_singleton]
        exact hall ds List.mem_cons_self
  · rintro (rfl | hcs)
    · exact ⟨[], rfl, by simp, Nat.zero_le _, by simp⟩
    · exact ⟨[cs], by simp, by simpa using hcs, Nat.zero_le _, by simp⟩

/-- A literal, then the rest. -/
theorem derives_lit_cons_iff {s : String} {rs : List Rhs} : Derives g (.seq (.lit s :: rs)) cs ↔
    ∃ es, cs = s.toList ++ es ∧ Derives g (.seq rs) es := by
  rw [derives_cons_iff]
  constructor
  · rintro ⟨ds, es, rfl, hlit, hrs⟩
    exact ⟨es, by rw [derives_lit_iff.mp hlit], hrs⟩
  · rintro ⟨es, rfl, hrs⟩
    exact ⟨s.toList, es, rfl, .lit, hrs⟩

/-- As many characters of a class as a repetition allows. -/
theorem chars_of_rep {r : Rhs} {lo : Nat} {hi : Option Nat} {ranges : List (Char × Char)}
    (hr : ∀ ds, Derives g r ds → ∃ c, ds = [c] ∧ Text.inClass ranges c = true)
    (h : Derives g (.rep r lo hi) cs) : (∀ c ∈ cs, Text.inClass ranges c = true) ∧
      lo ≤ cs.length ∧ ∀ h ∈ hi, cs.length ≤ h := by
  obtain ⟨css, rfl, hall, hlo, hhi⟩ := derives_rep_iff.mp h
  have hparts : (∀ c ∈ css.flatten, Text.inClass ranges c = true) ∧
      css.flatten.length = css.length := by
    clear hlo hhi h
    induction css with
    | nil => exact ⟨by simp, rfl⟩
    | cons ds css ih =>
        obtain ⟨c, rfl, hc⟩ := hr ds (hall ds List.mem_cons_self)
        obtain ⟨hmem, hlength⟩ := ih fun es hes => hall es (List.mem_cons_of_mem _ hes)
        exact ⟨List.forall_mem_cons.mpr ⟨hc, hmem⟩, congrArg (· + 1) hlength⟩
  rw [hparts.2]
  exact ⟨hparts.1, hlo, hhi⟩

end Shape

/-! ## Some derived text -/

/-- One round, unless more or fewer are asked for. -/
def rounds (lo : Nat) (hi : Option Nat) : Nat := max lo (min 1 (hi.getD 1))

/-- The first alternative, the first character of a class, and few rounds of a repetition; `fuel`
bounds how deep the rules are nested. -/
def sample (g : Grammar) : Nat → Rhs → Option (List Char)
  | 0, _ => none
  | _ + 1, .lit s => some s.toList
  | _ + 1, .cls ranges =>
      match ranges with
      | [] => none
      | r :: _ => if r.1 ≤ r.2 then some [r.1] else none
  | fuel + 1, .rule name =>
      match g.lookup name with
      | none => none
      | some r => sample g fuel r
  | _ + 1, .seq [] => some []
  | fuel + 1, .seq (r :: rs) =>
      match sample g fuel r, sample g fuel (.seq rs) with
      | some cs, some ds => some (cs ++ ds)
      | _, _ => none
  | fuel + 1, .alt rs =>
      match rs with
      | [] => none
      | r :: _ => sample g fuel r
  | fuel + 1, .rep r lo hi =>
      match sample g fuel r with
      | none => none
      | some cs =>
          if rounds lo hi ≤ hi.getD (rounds lo hi) then
            some (List.replicate (rounds lo hi) cs).flatten
          else none

theorem derives_sample {g : Grammar} {fuel : Nat} {r : Rhs} {cs : List Char}
    (h : sample g fuel r = some cs) : Derives g r cs := by
  fun_induction sample g fuel r generalizing cs with
  | case1 => cases h
  | case2 => cases h; exact .lit
  | case3 => cases h
  | case4 _ r _ hle =>
      cases h
      refine .cls ?_
      simp [Text.inClass, hle]
  | case5 => cases h
  | case6 => cases h
  | case7 _ name r hr ih => exact .rule hr (ih h)
  | case8 => cases h; exact .nil
  | case9 _ r rs cs ds hds hcs ihcs ihds =>
      cases h
      exact .cons (ihcs hcs) (ihds hds)
  | case10 => cases h
  | case11 => cases h
  | case12 _ r rs ih => exact .alt List.mem_cons_self (ih h)
  | case13 => cases h
  | case14 _ r lo hi cs hcs hn ih =>
      cases h
      refine .rep ?_ ?_ ?_
      · intro ds hds
        rw [List.eq_of_mem_replicate hds]
        exact ih hcs
      · rw [List.length_replicate]
        exact le_max_left _ _
      · rintro b hb
        rw [List.length_replicate]
        obtain rfl := Option.mem_def.mp hb
        exact hn
  | case15 => cases h

end Gbnf

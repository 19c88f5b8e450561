/-
# `Cognos.Lib.Regex` — searching a text for a regular expression

Expressions over classes of characters, with choice, repetition and word boundaries.  A place in
a text is what is before it, read backwards, and what is after it; an expression takes one place
to another (`Matches`).  `ends` computes where it can take a place, and `search` whether it
matches somewhere, which is all that is asked here: in which order the ways to match are tried,
and which of them is taken, does not matter for it.

    mem_ends             the places computed are those of the relation
    search_iff           a match somewhere in the text
    matches_iff_lang     without word boundaries, a match is a word of the expression's language
    lang_lit, lang_cls_star, lang_cls_plus
                         the languages of literals and of repeated classes
-/
import Mathlib

namespace Regex

/-- A regular expression. -/
inductive Expr
  | eps
  | cls (p : Char → Bool)
  | seq (r s : Expr)
  | alt (r s : Expr)
  | star (r : Expr)
  /-- `\b` -/
  | boundary

/-- What is before, backwards, and what is after. -/
abbrev Place := List Char × List Char

/-- `\b`: of the characters on the two sides one is of a word and the other is not. -/
def atBoundary (word : Char → Bool) (z : Place) : Bool :=
  z.1.head?.any word != z.2.head?.any word

section Matching

variable (word : Char → Bool)

inductive Matches : Expr → Place → Place → Prop
  | eps (z : Place) : Matches .eps z z
  | cls {p : Char → Bool} {c : Char} (before after : List Char) :
      p c = true → Matches (.cls p) (before, c :: after) (c :: before, after)
  | seq {r s : Expr} {x y z : Place} : Matches r x y → Matches s y z → Matches (.seq r s) x z
  | altLeft {r s : Expr} {x z : Place} : Matches r x z → Matches (.alt r s) x z
  | altRight {r s : Expr} {x z : Place} : Matches s x z → Matches (.alt r s) x z
  | starNil {r : Expr} (z : Place) : Matches (.star r) z z
  | starCons {r : Expr} {x y z : Place} :
      Matches r x y → Matches (.star r) y z → Matches (.star r) x z
  | boundary {z : Place} : atBoundary word z = true → Matches .boundary z z

/-- Where steps that get further can lead, with `n` of them. -/
def closure (next : Place → List Place) : Nat → Place → List Place
  | 0, z => [z]
  | n + 1, z => z :: ((next z).filter fun y => y.2.length < z.2.length).flatMap (closure next n)

/-- Where an expression can take a place. -/
def ends : Expr → Place → List Place
  | .eps, z => [z]
  | .cls p, z =>
      match z.2 with
      | c :: after => if p c then [(c :: z.1, after)] else []
      | [] => []
  | .seq r s, z => (ends r z).flatMap (ends s)
  | .alt r s, z => ends r z ++ ends s z
  | .star r, z => closure (ends r) z.2.length z
  | .boundary, z => if atBoundary word z then [z] else []

/-- All places from here on. -/
def places (before : List Char) : List Char → List Place
  | [] => [(before, [])]
  | c :: after => (before, c :: after) :: places (c :: before) after

/-- `re.search`, as a truth value. -/
def search (r : Expr) (text : List Char) : Bool :=
  (places [] text).any fun z => !(ends word r z).isEmpty

end Matching

/-! ## Places -/

/-- The text between two places. -/
def Takes (w : List Char) (x y : Place) : Prop :=
  x.2 = w ++ y.2 ∧ y.1 = w.reverse ++ x.1

theorem takes_nil (z : Place) : Takes [] z z := ⟨rfl, rfl⟩

theorem takes_nil_iff {x y : Place} : Takes [] x y ↔ x = y := by
  constructor
  · rintro ⟨hafter, hbefore⟩
    exact Prod.ext hbefore.symm hafter
  · rintro rfl
    exact takes_nil x

theorem Takes.trans {v w : List Char} {x y z : Place} (h : Takes v x y) (h' : Takes w y z) :
    Takes (v ++ w) x z := by
  obtain ⟨hafter, hbefore⟩ := h
  obtain ⟨hafter', hbefore'⟩ := h'
  refine ⟨?_, ?_⟩
  · rw [hafter, hafter', List.append_assoc]
  · rw [hbefore', hbefore, List.reverse_append, List.append_assoc]

/-- The place in the middle. -/
theorem exists_takes_append {v w : List Char} {x z : Place} :
    Takes (v ++ w) x z ↔ ∃ y, Takes v x y ∧ Takes w y z := by
  constructor
  · rintro ⟨hafter, hbefore⟩
    refine ⟨(v.reverse ++ x.1, w ++ z.2), ⟨?_, rfl⟩, rfl, ?_⟩
    · rw [hafter, List.append_assoc]
    · rw [hbefore, List.reverse_append, List.append_assoc]
  · rintro ⟨y, h, h'⟩
    exact h.trans h'

variable {word : Char → Bool}

/-- An expression goes forward. -/
theorem Matches.takes {r : Expr} {x z : Place} (h : Matches word r x z) : ∃ w, Takes w x z := by
  induction h with
  | eps z => exact ⟨[], takes_nil z⟩
  | @cls p c before after hc => exact ⟨[c], rfl, rfl⟩
  | seq _ _ ihr ihs =>
      obtain ⟨v, hv⟩ := ihr
      obtain ⟨w, hw⟩ := ihs
      exact ⟨v ++ w, hv.trans hw⟩
  | altLeft _ ih => exact ih
  | altRight _ ih => exact ih
  | starNil z => exact ⟨[], takes_nil z⟩
  | starCons _ _ ihr ihs =>
      obtain ⟨v, hv⟩ := ihr
      obtain ⟨w, hw⟩ := ihs
      exact ⟨v ++ w, hv.trans hw⟩
  | @boundary z _ => exact ⟨[], takes_nil z⟩

/-- It gets further, or stays where it is. -/
theorem Matches.eq_or_lt {r : Expr} {x z : Place} (h : Matches word r x z) :
    x = z ∨ z.2.length < x.2.length := by
  obtain ⟨w, hw⟩ := h.takes
  cases w with
  | nil => exact Or.inl (takes_nil_iff.mp hw)
  | cons c w =>
      right
      rw [hw.1]
      simp

/-! ## What is computed -/

theorem mem_closure {r : Expr} {next : Place → List Place}
    (hnext : ∀ x y, y ∈ next x ↔ Matches word r x y) {n : Nat} {x z : Place}
    (h : z ∈ closure next n x) : Matches word (.star r) x z := by
  induction n generalizing x with
  | zero =>
      obtain rfl := List.mem_singleton.mp h
      exact .starNil _
  | succ n ih =>
      rcases List.mem_cons.mp h with rfl | h
      · exact .starNil _
      · obtain ⟨y, hy, hz⟩ := List.mem_flatMap.mp h
        exact .starCons ((hnext x y).mp (List.mem_of_mem_filter hy)) (ih hz)

theorem closure_mem {r : Expr} {next : Place → List Place}
    (hnext : ∀ x y, y ∈ next x ↔ Matches word r x y) {x z : Place}
    (h : Matches word (.star r) x z) {n : Nat} (hn : x.2.length ≤ n) : z ∈ closure next n x := by
  generalize hs : Expr.star r = s at h
  induction h generalizing n with
  | starNil z =>
      cases n with
      | zero => exact List.mem_singleton_self z
      | succ n => exact List.mem_cons_self
  | @starCons r' x y z hr hstar _ ih =>
      obtain rfl := Expr.star.inj hs
      rcases hr.eq_or_lt with rfl | hlt
      · exact ih hn rfl
      · cases n with
        | zero => omega
        | succ n =>
            refine List.mem_cons_of_mem _ (List.mem_flatMap.mpr ⟨y, ?_, ih (by omega) rfl⟩)
            exact List.mem_filter.mpr ⟨(hnext x y).mpr hr, by simpa using hlt⟩
  | eps | cls | seq | altLeft | altRight | boundary => cases hs

/-- The places that are computed are those an expression takes a place to. -/
theorem mem_ends (r : Expr) (x z : Place) : z ∈ ends word r x ↔ Matches word r x z := by
  induction r generalizing x z with
  | eps =>
      constructor
      · intro h
        obtain rfl := List.mem_singleton.mp h
        exact .eps _
      · intro h
        cases h
        exact List.mem_singleton_self _
  | cls p =>
      obtain ⟨before, after⟩ := x
      cases after with
      | nil =>
          refine iff_of_false List.not_mem_nil ?_
          intro h
          cases h
      | cons c after =>
          have hends : ends word (.cls p) (before, c :: after) =
              if p c then [(c :: before, after)] else [] := rfl
          rw [hends]
          constructor
          · intro h
            split_ifs at h with hc
            · obtain rfl := List.mem_singleton.mp h
              exact .cls before after hc
            · cases h
          · intro h
            cases h with
            | cls _ _ hc =>
                rw [if_pos hc]
                exact List.mem_singleton_self _
  | seq r s ihr ihs =>
      rw [ends, List.mem_flatMap]
      constructor
      · rintro ⟨y, hy, hz⟩
        exact .seq ((ihr x y).mp hy) ((ihs y z).mp hz)
      · intro h
        cases h with
        | @seq _ _ _ y _ hr hs => exact ⟨y, (ihr x y).mpr hr, (ihs y z).mpr hs⟩
  | alt r s ihr ihs =>
      rw [ends, List.mem_append, ihr, ihs]
      constructor
      · rintro (h | h)
        · exact .altLeft h
        · exact .altRight h
      · intro h
        cases h with
        | altLeft h => exact Or.inl h
        | altRight h => exact Or.inr h
  | star r ih => exact ⟨mem_closure ih, fun h => closure_mem ih h le_rfl⟩
  | boundary =>
      rw [ends]
      constructor
      · intro h
        split_ifs at h with hb
        · obtain rfl := List.mem_singleton.mp h
          exact .boundary hb
        · cases h
      · intro h
        cases h with
        | boundary hb =>
            rw [if_pos hb]
            exact List.mem_singleton_self _

theorem mem_places {before after : List Char} {z : Place} :
    z ∈ places before after ↔ ∃ w, Takes w (before, after) z := by
  induction after generalizing before with
  | nil =>
      rw [places, List.mem_singleton]
      constructor
      · rintro rfl
        exact ⟨[], takes_nil _⟩
      · rintro ⟨w, hafter, hbefore⟩
        obtain ⟨rfl, hz⟩ := List.append_eq_nil_iff.mp hafter.symm
        exact Prod.ext hbefore hz
  | cons c after ih =>
      rw [places, List.mem_cons, ih]
      constructor
      · rintro (rfl | ⟨w, hw⟩)
        · exact ⟨[], takes_nil _⟩
        · refine ⟨c :: w, Takes.trans (v := [c]) (y := (c :: before, after)) ⟨rfl, rfl⟩ hw⟩
      · rintro ⟨w, hw⟩
        cases w with
        | nil => exact Or.inl (takes_nil_iff.mp hw).symm
        | cons d w =>
            obtain ⟨hafter, hbefore⟩ := hw
            obtain ⟨rfl, hrest⟩ := List.cons.inj hafter
            refine Or.inr ⟨w, hrest, ?_⟩
            rw [hbefore, List.reverse_cons, List.append_assoc]
            rfl

/-- A match somewhere: some text, what is matched, and the rest. -/
theorem search_iff {r : Expr} {text : List Char} :
    search word r text = true ↔ ∃ before w after, text = before ++ w ++ after ∧
      Matches word r (before.reverse, w ++ after) (w.reverse ++ before.reverse, after) := by
  rw [search, List.any_eq_true]
  constructor
  · rintro ⟨x, hx, hends⟩
    obtain ⟨before, hbefore⟩ := mem_places.mp hx
    cases hlist : ends word r x with
    | nil => simp [hlist] at hends
    | cons z zs =>
        have hz : Matches word r x z := (mem_ends r x z).mp (hlist ▸ List.mem_cons_self)
        obtain ⟨w, hw⟩ := hz.takes
        refine ⟨before, w, z.2, ?_, ?_⟩
        · have htext : text = before ++ x.2 := hbefore.1
          rw [htext, hw.1, List.append_assoc]
        · have hx : x = (before.reverse, w ++ z.2) :=
            Prod.ext (hbefore.2.trans (List.append_nil _)) hw.1
          have hz' : z = (w.reverse ++ before.reverse, z.2) := by
            refine Prod.ext (hw.2.trans ?_) rfl
            rw [hx]
          rw [← hx, ← hz']
          exact hz
  · rintro ⟨before, w, after, rfl, h⟩
    refine ⟨(before.reverse, w ++ after), mem_places.mpr ⟨before, ?_, ?_⟩, ?_⟩
    · exact List.append_assoc _ _ _
    · exact (List.append_nil _).symm
    · cases hlist : ends word r (before.reverse, w ++ after) with
      | nil =>
          have hmem := (mem_ends r _ _).mpr h
          rw [hlist] at hmem
          cases hmem
      | cons z zs => rfl

theorem matches_seq {r s : Expr} {x z : Place} :
    Matches word (.seq r s) x z ↔ ∃ y, Matches word r x y ∧ Matches word s y z := by
  constructor
  · intro h
    cases h with
    | @seq _ _ _ y _ hr hs => exact ⟨y, hr, hs⟩
  · rintro ⟨y, hr, hs⟩
    exact .seq hr hs

theorem matches_boundary {x z : Place} :
    Matches word .boundary x z ↔ atBoundary word x = true ∧ x = z := by
  constructor
  · intro h
    cases h with
    | boundary hb => exact ⟨hb, rfl⟩
  · rintro ⟨hb, rfl⟩
    exact .boundary hb

/-! ## Languages -/

/-- The words of an expression; none for a word boundary, which is not about a word. -/
def Lang : Expr → List Char → Prop
  | .eps, w => w = []
  | .cls p, w => ∃ c, w = [c] ∧ p c = true
  | .seq r s, w => ∃ u v, w = u ++ v ∧ Lang r u ∧ Lang s v
  | .alt r s, w => Lang r w ∨ Lang s w
  | .star r, w => ∃ ws : List (List Char), w = ws.flatten ∧ ∀ u ∈ ws, Lang r u
  | .boundary, _ => False

/-- There is no word boundary in it. -/
def Plain : Expr → Prop
  | .eps | .cls _ => True
  | .seq r s | .alt r s => Plain r ∧ Plain s
  | .star r => Plain r
  | .boundary => False

theorem matches_of_lang {r : Expr} {w : List Char} (h : Lang r w) {x z : Place}
    (hw : Takes w x z) : Matches word r x z := by
  induction r generalizing w x z with
  | eps =>
      subst h
      obtain rfl := takes_nil_iff.mp hw
      exact .eps _
  | cls p =>
      obtain ⟨c, rfl, hc⟩ := h
      obtain ⟨hafter, hbefore⟩ := hw
      obtain ⟨before, after⟩ := x
      obtain ⟨before', after'⟩ := z
      obtain rfl : after = c :: after' := hafter
      obtain rfl : before' = c :: before := hbefore
      exact .cls _ _ hc
  | seq r s ihr ihs =>
      obtain ⟨u, v, rfl, hu, hv⟩ := h
      obtain ⟨y, hxy, hyz⟩ := exists_takes_append.mp hw
      exact .seq (ihr hu hxy) (ihs hv hyz)
  | alt r s ihr ihs =>
      rcases h with h | h
      · exact .altLeft (ihr h hw)
      · exact .altRight (ihs h hw)
  | star r ih =>
      obtain ⟨ws, rfl, hws⟩ := h
      induction ws generalizing x with
      | nil =>
          obtain rfl := takes_nil_iff.mp hw
          exact .starNil _
      | cons u ws ihws =>
          obtain ⟨y, hxy, hyz⟩ := exists_takes_append.mp hw
          exact .starCons (ih (hws u List.mem_cons_self) hxy)
            (ihws (fun v hv => hws v (List.mem_cons_of_mem _ hv)) hyz)
  | boundary => cases h

theorem Matches.lang {r : Expr} {x z : Place} (h : Matches word r x z) (hplain : Plain r) :
    ∃ w, Lang r w ∧ Takes w x z := by
  induction h with
  | eps z => exact ⟨[], rfl, takes_nil z⟩
  | @cls p c before after hc => exact ⟨[c], ⟨c, rfl, hc⟩, rfl, rfl⟩
  | seq _ _ ihr ihs =>
      obtain ⟨u, hu, hxy⟩ := ihr hplain.1
      obtain ⟨v, hv, hyz⟩ := ihs hplain.2
      exact ⟨u ++ v, ⟨u, v, rfl, hu, hv⟩, hxy.trans hyz⟩
  | altLeft _ ih =>
      obtain ⟨w, hw, htakes⟩ := ih hplain.1
      exact ⟨w, Or.inl hw, htakes⟩
  | altRight _ ih =>
      obtain ⟨w, hw, htakes⟩ := ih hplain.2
      exact ⟨w, Or.inr hw, htakes⟩
  | starNil z => exact ⟨[], ⟨[], rfl, fun u hu => absurd hu List.not_mem_nil⟩, takes_nil z⟩
  | starCons _ _ ihr ihs =>
      obtain ⟨u, hu, hxy⟩ := ihr hplain
      obtain ⟨v, ⟨ws, rfl, hws⟩, hyz⟩ := ihs hplain
      refine ⟨u ++ ws.flatten, ⟨u :: ws, rfl, ?_⟩, hxy.trans hyz⟩
      intro v hv
      rcases List.mem_cons.mp hv with rfl | hv
      · exact hu
      · exact hws v hv
  | boundary => cases hplain

/-- Without word boundaries only the word that is taken matters. -/
theorem matches_iff_lang {r : Expr} (hplain : Plain r) {x z : Place} :
    Matches word r x z ↔ ∃ w, Lang r w ∧ Takes w x z := by
  constructor
  · intro h
    exact h.lang hplain
  · rintro ⟨w, hw, htakes⟩
    exact matches_of_lang hw htakes

/-- A word of the language, somewhere in the text. -/
theorem search_iff_lang {r : Expr} (hplain : Plain r) {text : List Char} :
    search word r text = true ↔
      ∃ before w after, text = before ++ w ++ after ∧ Lang r w := by
  rw [search_iff]
  constructor
  · rintro ⟨before, w, after, rfl, h⟩
    obtain ⟨v, hv, htakes⟩ := h.lang hplain
    obtain rfl : w = v := List.append_cancel_right htakes.1
    exact ⟨before, w, after, rfl, hv⟩
  · rintro ⟨before, w, after, rfl, h⟩
    exact ⟨before, w, after, rfl, matches_of_lang h ⟨rfl, rfl⟩⟩

theorem lang_seq {r s : Expr} {w : List Char} :
    Lang (.seq r s) w ↔ ∃ u v, w = u ++ v ∧ Lang r u ∧ Lang s v := Iff.rfl

theorem lang_alt {r s : Expr} {w : List Char} : Lang (.alt r s) w ↔ Lang r w ∨ Lang s w := Iff.rfl

/-! ## Literals and classes -/

/-- These characters. -/
def lit : List Char → Expr
  | [] => .eps
  | c :: cs => .seq (.cls (· == c)) (lit cs)

/-- `r+` -/
def plus (r : Expr) : Expr := .seq r (.star r)

/-- `r?` -/
def opt (r : Expr) : Expr := .alt r .eps

theorem plain_lit (cs : List Char) : Plain (lit cs) := by
  induction cs with
  | nil => trivial
  | cons c cs ih => exact ⟨trivial, ih⟩

@[simp] theorem lang_lit {cs w : List Char} : Lang (lit cs) w ↔ w = cs := by
  induction cs generalizing w with
  | nil => rfl
  | cons c cs ih =>
      constructor
      · rintro ⟨u, v, rfl, ⟨d, rfl, hd⟩, hv⟩
        rw [eq_of_beq hd, ih.mp hv]
        rfl
      · rintro rfl
        exact ⟨[c], cs, rfl, ⟨c, rfl, beq_self_eq_true c⟩, ih.mpr rfl⟩

theorem matches_lit {cs : List Char} {x z : Place} :
    Matches word (lit cs) x z ↔ Takes cs x z := by
  rw [matches_iff_lang (plain_lit cs)]
  simp

theorem lang_lit_seq {cs w : List Char} {r : Expr} :
    Lang (.seq (lit cs) r) w ↔ ∃ v, w = cs ++ v ∧ Lang r v := by
  simp [lang_seq]

theorem lang_opt {r : Expr} {w : List Char} : Lang (opt r) w ↔ w = [] ∨ Lang r w := or_comm

@[simp] theorem lang_cls_star {p : Char → Bool} {w : List Char} :
    Lang (.star (.cls p)) w ↔ ∀ c ∈ w, p c = true := by
  constructor
  · rintro ⟨ws, rfl, hws⟩ c hc
    obtain ⟨u, hu, hcu⟩ := List.mem_flatten.mp hc
    obtain ⟨d, rfl, hd⟩ := hws u hu
    rw [List.mem_singleton.mp hcu]
    exact hd
  · intro h
    refine ⟨w.map fun c => [c], ?_, ?_⟩
    · induction w with
      | nil => rfl
      | cons c w ih =>
          rw [List.map_cons, List.flatten_cons, ← ih fun d hd => h d (List.mem_cons_of_mem _ hd)]
          rfl
    · intro u hu
      obtain ⟨c, hc, rfl⟩ := List.mem_map.mp hu
      exact ⟨c, rfl, h c hc⟩

@[simp] theorem lang_cls_plus {p : Char → Bool} {w : List Char} :
    Lang (plus (.cls p)) w ↔ w ≠ [] ∧ ∀ c ∈ w, p c = true := by
  constructor
  · rintro ⟨u, v, rfl, ⟨c, rfl, hc⟩, hv⟩
    refine ⟨by simp, ?_⟩
    intro d hd
    rcases List.mem_cons.mp hd with rfl | hd
    · exact hc
    · exact lang_cls_star.mp hv d hd
  · rintro ⟨hne, h⟩
    cases w with
    | nil => exact absurd rfl hne
    | cons c w =>
        exact ⟨[c], w, rfl, ⟨c, rfl, h c List.mem_cons_self⟩,
          lang_cls_star.mpr fun d hd => h d (List.mem_cons_of_mem _ hd)⟩

end Regex

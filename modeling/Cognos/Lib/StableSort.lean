/-
# `Cognos.Lib.StableSort` — a list kept sorted by rank

A list in which who has the greater key comes first, and one more element sorted in stably: it
goes behind all that have no smaller key.

    sort_concat      the sorted list with one more, in closed form
    pairwise_place   it is sorted again
    filter_place     leaving elements out, before or after
-/
import Mathlib.Data.List.Sort

namespace StableSort

variable {α κ : Type} [LinearOrder κ] (key : α → κ)

/-- `a` may stand in front of `b`. -/
def Ahead (a b : α) : Prop := key b ≤ key a

instance : DecidableRel (Ahead key) := fun a b => inferInstanceAs (Decidable (key b ≤ key a))

/-- The list with `x` behind all that have no smaller key. -/
def place (x : α) (l : List α) : List α :=
  l.filter (fun a => key x ≤ key a) ++ x :: l.filter (fun a => key a < key x)

variable {key} {x : α} {l : List α}

theorem perm_place : (place key x l).Perm (x :: l) := by
  refine List.perm_middle.trans (.cons x ?_)
  have h := List.filter_append_perm (fun a => decide (key x ≤ key a)) l
  simp only [← decide_not, not_le] at h
  exact h

theorem mem_place {a : α} : a ∈ place key x l ↔ a = x ∨ a ∈ l :=
  perm_place.mem_iff.trans List.mem_cons

/-- In a sorted list, elements with a smaller key have only such behind them. -/
theorem filter_eq_self_of_lt {a : α} (hl : (a :: l).Pairwise (Ahead key)) (h : key a < key x) :
    l.filter (fun b => key b < key x) = l ∧ l.filter (fun b => key x ≤ key b) = [] := by
  have hbelow : ∀ b ∈ l, key b < key x := fun b hb =>
    ((List.pairwise_cons.mp hl).1 b hb).trans_lt h
  refine ⟨List.filter_eq_self.mpr fun b hb => decide_eq_true (hbelow b hb), ?_⟩
  exact List.filter_eq_nil_iff.mpr fun b hb hle => (hbelow b hb).not_ge (of_decide_eq_true hle)

theorem split_sorted (hl : l.Pairwise (Ahead key)) :
    l.filter (fun b => key x ≤ key b) ++ l.filter (fun b => key b < key x) = l := by
  induction l with
  | nil => rfl
  | cons a l ih =>
      rcases le_or_gt (key x) (key a) with hle | hlt
      · simp only [List.filter_cons, hle, hle.not_gt, decide_true, decide_false, if_true,
          Bool.false_eq_true, if_false, List.cons_append, ih (List.pairwise_cons.mp hl).2]
      · obtain ⟨hsame, hnone⟩ := filter_eq_self_of_lt hl hlt
        simp only [List.filter_cons, hlt, hlt.not_ge, decide_true, decide_false, if_true,
          Bool.false_eq_true, if_false, hsame, hnone, List.nil_append]

/-- Sorting a sorted list with one more behind it. -/
theorem sort_concat (hl : l.Pairwise (Ahead key)) :
    (l ++ [x]).insertionSort (Ahead key) = place key x l := by
  induction l with
  | nil => rfl
  | cons a l ih =>
      have hrest := (List.pairwise_cons.mp hl).2
      rw [List.cons_append, List.insertionSort_cons, ih hrest]
      rcases le_or_gt (key x) (key a) with hle | hlt
      · have hfirst : ∀ b ∈ place key x l, Ahead key a b := by
          intro b hb
          rcases mem_place.mp hb with rfl | hb
          · exact hle
          · exact (List.pairwise_cons.mp hl).1 b hb
        have hplace : place key x (a :: l) = a :: place key x l := by
          simp only [place, List.filter_cons, hle, hle.not_gt, decide_true, decide_false, if_true,
            List.cons_append, Bool.false_eq_true, if_false]
        rw [hplace]
        cases hl' : place key x l with
        | nil => rfl
        | cons b rest => 
            rw [hl'] at hfirst
            exact List.orderedInsert_cons_of_le _ _ (hfirst b List.mem_cons_self)
      · obtain ⟨hsame, hnone⟩ := filter_eq_self_of_lt hl hlt
        have hahead : ¬ Ahead key a x := not_le.mpr hlt
        have hplace : place key x (a :: l) = x :: a :: l := by
          simp only [place, List.filter_cons, hlt, hlt.not_ge, decide_false, decide_true, if_true,
            Bool.false_eq_true, if_false, hsame, hnone, List.nil_append]
        rw [hplace, place, hsame, hnone, List.nil_append,
          List.orderedInsert_of_not_le _ _ hahead]
        cases l with
        | nil => rfl
        | cons b rest =>
            rw [List.orderedInsert_cons_of_le _ _
              ((List.pairwise_cons.mp hl).1 b List.mem_cons_self)]

theorem pairwise_place (hl : l.Pairwise (Ahead key)) : (place key x l).Pairwise (Ahead key) := by
  refine List.pairwise_append.mpr ⟨hl.filter _, ?_, ?_⟩
  · refine List.pairwise_cons.mpr ⟨?_, hl.filter _⟩
    intro b hb
    exact (of_decide_eq_true (List.mem_filter.mp hb).2 : key b < key x).le
  · intro a ha b hb
    have hxa : key x ≤ key a := of_decide_eq_true (List.mem_filter.mp ha).2
    rcases List.mem_cons.mp hb with rfl | hb
    · exact hxa
    · exact (of_decide_eq_true (List.mem_filter.mp hb).2 : key b < key x).le.trans hxa

/-- What stays of a list with `x`, when `x` stays. -/
theorem filter_place {p : α → Bool} (hx : p x = true) :
    (place key x l).filter p = place key x (l.filter p) := by
  rw [place, List.filter_append, List.filter_cons, if_pos hx, List.filter_filter,
    List.filter_filter, place, List.filter_filter, List.filter_filter]
  simp only [Bool.and_comm]

/-- What stays of a sorted list with `x`, when `x` does not. -/
theorem filter_place_of_not {p : α → Bool} (hl : l.Pairwise (Ahead key)) (hx : p x = false) :
    (place key x l).filter p = l.filter p := by
  rw [place, List.filter_append, List.filter_cons, if_neg (by rw [hx]; exact Bool.false_ne_true),
    ← List.filter_append, split_sorted hl]

end StableSort

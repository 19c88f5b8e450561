/-
# `Cognos.Lib.LatestMax` — the latest of the greatest

The element of a list that none is above, and that none behind it reaches.  Elements that come
later are compared with the one held so far, and take its place when they are not below it.

    IsMax.greatest                      none is above it
    IsMax.snoc_of_le, snoc_of_not_le    one more element
-/
import Mathlib.Data.List.Infix

namespace Latest

variable {α : Type} {r : α → α → Prop} {l : List α} {x y : α}

/-- `x` is in the list, at least as great as what is before it and greater than what is after. -/
def IsMax (r : α → α → Prop) (l : List α) (x : α) : Prop :=
  ∃ before after, l = before ++ x :: after ∧ (∀ y ∈ before, r y x) ∧ ∀ y ∈ after, ¬ r x y

theorem IsMax.singleton (x : α) : IsMax r [x] x :=
  ⟨[], [], rfl, List.forall_mem_nil _, List.forall_mem_nil _⟩

theorem IsMax.mem (h : IsMax r l x) : x ∈ l := by
  obtain ⟨before, after, rfl, -, -⟩ := h
  exact List.mem_append_right _ List.mem_cons_self

/-- None is above it. -/
theorem IsMax.greatest (h : IsMax r l x) (htotal : ∀ y ∈ l, r x y ∨ r y x) (hy : y ∈ l) :
    r y x := by
  obtain ⟨before, after, rfl, hbefore, hafter⟩ := h
  rcases List.mem_append.mp hy with hb | hb
  · exact hbefore y hb
  · rcases List.mem_cons.mp hb with rfl | ha
    · exact (htotal y hy).elim id id
    · exact (htotal y hy).resolve_left (hafter y ha)

/-- What is not below it takes its place. -/
theorem IsMax.snoc_of_le (h : IsMax r l x) (htrans : ∀ {a b c}, r a b → r b c → r a c)
    (htotal : ∀ y ∈ l, r x y ∨ r y x) (hxy : r x y) : IsMax r (l ++ [y]) y :=
  ⟨l, [], rfl, fun _ hz => htrans (h.greatest htotal hz) hxy, List.forall_mem_nil _⟩

/-- What is below it does not. -/
theorem IsMax.snoc_of_not_le (h : IsMax r l x) (hxy : ¬ r x y) : IsMax r (l ++ [y]) x := by
  obtain ⟨before, after, rfl, hbefore, hafter⟩ := h
  refine ⟨before, after ++ [y], by rw [List.append_assoc, List.cons_append], hbefore, ?_⟩
  intro z hz
  rcases List.mem_append.mp hz with hz | hz
  · exact hafter z hz
  · rw [List.mem_singleton.mp hz]
    exact hxy

end Latest

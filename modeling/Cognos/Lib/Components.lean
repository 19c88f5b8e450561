/-
# `Cognos.Lib.Components` — the connected components of a graph

From each node not met yet a depth-first search collects what it gets to.  In a graph whose
arcs go both ways these are the classes of nodes that can be reached from each other.

    mem_explore        one search collects what can be reached, and marks it
    mem_components     the components are the classes
    nodup_components   each comes once
-/
import Mathlib
import Cognos.Lib.Digraph

namespace Digraph

open Relation

variable {α : Type} (arcs : List (α × α))

/-! ## Classes -/

/-- All that can be reached from one node. -/
def IsClass (start : α) (c : Finset α) : Prop := ∀ x, x ∈ c ↔ ReflTransGen (Arc arcs) start x

/-- No arc leads out of the list. -/
def Closed (l : List α) : Prop := ∀ x ∈ l, ∀ y, Arc arcs x y → y ∈ l

/-- Every arc has one the other way. -/
def BothWays : Prop := ∀ x y, Arc arcs x y → Arc arcs y x

variable {arcs} {start node : α} {old visited stack : List α} {c d component : Finset α}

theorem Closed.mem (h : Closed arcs old) {x y : α} (hx : x ∈ old)
    (hxy : ReflTransGen (Arc arcs) x y) : y ∈ old := by
  induction hxy with
  | refl => exact hx
  | tail _ harc ih => exact h _ ih _ harc

/-- Where arcs go both ways there is a way back. -/
theorem way_back (hsymm : BothWays arcs) {x y : α}
    (h : ReflTransGen (Arc arcs) x y) : ReflTransGen (Arc arcs) y x := by
  induction h with
  | refl => exact .refl
  | tail _ harc ih => exact .head (hsymm _ _ harc) ih

theorem IsClass.eq (hc : IsClass arcs start c) (hd : IsClass arcs start d) : c = d :=
  Finset.ext fun x => (hc x).trans (hd x).symm

theorem IsClass.mem (hc : IsClass arcs start c) : start ∈ c := (hc start).mpr .refl

/-- A class is the class of each of its nodes. -/
theorem IsClass.of_mem (hsymm : BothWays arcs) {x : α} (hc : IsClass arcs start c)
    (hx : x ∈ c) : IsClass arcs x c := by
  have hway := (hc x).mp hx
  intro y
  refine (hc y).trans ⟨fun hy => ?_, hway.trans⟩
  exact (way_back hsymm hway).trans hy

/-! ## One search -/

variable (arcs) in
/-- Where a search from `start` stands; `old` was marked before. -/
structure Exploring (start : α) (old visited : List α) (component : Finset α)
    (stack : List α) : Prop where
  mem_visited : ∀ x, x ∈ visited ↔ x ∈ old ∨ x ∈ component
  reached : ∀ x, x ∈ component ∨ x ∈ stack → ReflTransGen (Arc arcs) start x
  ahead : ∀ x ∈ component, ∀ y, Arc arcs x y → y ∈ visited ∨ y ∈ stack
  met : start ∈ visited ∨ start ∈ stack

theorem exploring_start : Exploring arcs start old old ∅ [start] where
  mem_visited x := by
    refine ⟨Or.inl, fun h => h.resolve_right (Finset.notMem_empty x)⟩
  reached x h := by
    have hx := List.mem_singleton.mp (h.resolve_left (Finset.notMem_empty x))
    rw [hx]
  ahead x h := absurd h (Finset.notMem_empty x)
  met := Or.inr List.mem_cons_self

theorem Exploring.pass (h : Exploring arcs start old visited component (node :: stack))
    (hnode : node ∈ visited) : Exploring arcs start old visited component stack where
  mem_visited := h.mem_visited
  reached x hx := h.reached x (hx.imp_right (List.mem_cons_of_mem node))
  ahead x hx y hy := by
    rcases h.ahead x hx y hy with hv | hs
    · exact Or.inl hv
    · rcases List.mem_cons.mp hs with rfl | hs
      · exact Or.inl hnode
      · exact Or.inr hs
  met := by
    rcases h.met with hv | hs
    · exact Or.inl hv
    · rcases List.mem_cons.mp hs with rfl | hs
      · exact Or.inl hnode
      · exact Or.inr hs

variable [DecidableEq α]

variable (arcs) in
theorem length_fresh_le (visited : List α) (node : α) :
    ((next arcs node).filter (· ∉ visited)).reverse.length ≤ (next arcs node).length := by
  rw [List.length_reverse]
  exact List.length_filter_le _ _

variable (arcs) in
/-- What is marked and what is collected in the end.  A node that is marked is passed over; of
another's neighbours those that are not marked go on the stack. -/
def explore (visited : List α) (component : Finset α) : List α → List α × Finset α
  | [] => (visited, component)
  | node :: stack =>
      if node ∈ visited then explore visited component stack
      else
        explore (node :: visited) (insert node component)
          (((next arcs node).filter (· ∉ node :: visited)).reverse ++ stack)
termination_by stack => unspent arcs visited + stack.length
decreasing_by
  · exact Nat.add_lt_add_left (Nat.lt_succ_self _) _
  · next hnode =>
    have hspent : unspent arcs (node :: visited) + (next arcs node).length = unspent arcs visited :=
      unspent_cons hnode
    have hfresh := length_fresh_le arcs (node :: visited) node
    rw [List.length_append, List.length_cons]
    omega

theorem Exploring.visit (h : Exploring arcs start old visited component (node :: stack)) :
    Exploring arcs start old (node :: visited) (insert node component)
      (((next arcs node).filter (· ∉ node :: visited)).reverse ++ stack) := by
  have hnode : ReflTransGen (Arc arcs) start node := h.reached node (Or.inr List.mem_cons_self)
  have hpushed : ∀ y, y ∈ ((next arcs node).filter (· ∉ node :: visited)).reverse ↔
      Arc arcs node y ∧ y ∉ node :: visited := by
    intro y
    rw [List.mem_reverse, List.mem_filter, mem_next, decide_eq_true_eq]
  constructor
  · intro x
    rw [List.mem_cons, Finset.mem_insert, h.mem_visited]
    exact or_left_comm
  · intro x hx
    rcases hx with hx | hx
    · rcases Finset.mem_insert.mp hx with rfl | hx
      · exact hnode
      · exact h.reached x (Or.inl hx)
    · rcases List.mem_append.mp hx with hx | hx
      · exact hnode.tail ((hpushed x).mp hx).1
      · exact h.reached x (Or.inr (List.mem_cons_of_mem node hx))
  · intro x hx y hy
    by_cases hvisited : y ∈ node :: visited
    · exact Or.inl hvisited
    · rcases Finset.mem_insert.mp hx with rfl | hx
      · exact Or.inr (List.mem_append_left _ ((hpushed y).mpr ⟨hy, hvisited⟩))
      · rcases h.ahead x hx y hy with hv | hs
        · exact Or.inl (List.mem_cons_of_mem node hv)
        · rcases List.mem_cons.mp hs with rfl | hs
          · exact Or.inl List.mem_cons_self
          · exact Or.inr (List.mem_append_right _ hs)
  · rcases h.met with hv | hs
    · exact Or.inl (List.mem_cons_of_mem node hv)
    · rcases List.mem_cons.mp hs with rfl | hs
      · exact Or.inl List.mem_cons_self
      · exact Or.inr (List.mem_append_right _ hs)

/-- The search goes on until the stack is empty. -/
theorem Exploring.explore (h : Exploring arcs start old visited component stack) :
    Exploring arcs start old (Digraph.explore arcs visited component stack).1
      (Digraph.explore arcs visited component stack).2 [] := by
  induction visited, component, stack using Digraph.explore.induct arcs with
  | case1 visited component =>
      rw [Digraph.explore]
      exact h
  | case2 visited component node stack hnode ih =>
      rw [Digraph.explore, if_pos hnode]
      exact ih (h.pass hnode)
  | case3 visited component node stack hnode ih =>
      rw [Digraph.explore, if_neg hnode]
      exact ih h.visit

/-- A search among unmarked nodes collects what can be reached, and marks it. -/
theorem mem_explore (hsymm : BothWays arcs) (hold : Closed arcs old) (hstart : start ∉ old) :
    (∀ x, x ∈ (explore arcs old ∅ [start]).2 ↔ ReflTransGen (Arc arcs) start x) ∧
      (∀ x, x ∈ (explore arcs old ∅ [start]).1 ↔
        x ∈ old ∨ ReflTransGen (Arc arcs) start x) ∧
      Closed arcs (explore arcs old ∅ [start]).1 := by
  have hend := (exploring_start : Exploring arcs start old old ∅ [start]).explore
  have hahead : ∀ x ∈ (explore arcs old ∅ [start]).2, ∀ y, Arc arcs x y →
      y ∈ (explore arcs old ∅ [start]).1 := by
    intro x hx y hy
    exact (hend.ahead x hx y hy).resolve_right List.not_mem_nil
  have hfresh : ∀ x, ReflTransGen (Arc arcs) start x → x ∉ old := by
    intro x hx hmem
    exact hstart (hold.mem hmem (way_back hsymm hx))
  have hcollected : ∀ x, x ∈ (explore arcs old ∅ [start]).2 ↔
      ReflTransGen (Arc arcs) start x := by
    intro x
    refine ⟨fun hx => hend.reached x (Or.inl hx), fun hx => ?_⟩
    have hmarked : x ∈ (explore arcs old ∅ [start]).1 := by
      induction hx with
      | refl => exact hend.met.resolve_right List.not_mem_nil
      | tail hway harc ih =>
          have hmem := ((hend.mem_visited _).mp ih).resolve_left (hfresh _ hway)
          exact hahead _ hmem _ harc
    exact ((hend.mem_visited x).mp hmarked).resolve_left (hfresh x hx)
  have hmarked : ∀ x, x ∈ (explore arcs old ∅ [start]).1 ↔
      x ∈ old ∨ ReflTransGen (Arc arcs) start x := by
    intro x
    rw [hend.mem_visited, hcollected]
  refine ⟨hcollected, hmarked, fun x hx y hy => ?_⟩
  rcases (hend.mem_visited x).mp hx with hx | hx
  · exact (hmarked y).mpr (Or.inl (hold x hx y hy))
  · exact hahead x hx y hy

/-! ## The components -/

variable (arcs) in
/-- The components of the nodes, but for those that are marked. -/
def components (visited : List α) : List α → List (Finset α)
  | [] => []
  | start :: nodes =>
      if start ∈ visited then components visited nodes
      else
        (explore arcs visited ∅ [start]).2 ::
          components (explore arcs visited ∅ [start]).1 nodes

variable {nodes : List α}

/-- The components are the classes of the nodes that are not marked. -/
theorem mem_components (hsymm : BothWays arcs) (hvisited : Closed arcs visited) :
    c ∈ components arcs visited nodes ↔
      ∃ start ∈ nodes, start ∉ visited ∧ IsClass arcs start c := by
  induction nodes generalizing visited with
  | nil =>
      refine iff_of_false List.not_mem_nil ?_
      rintro ⟨start, hstart, -⟩
      cases hstart
  | cons first nodes ih =>
      rw [components]
      by_cases hfirst : first ∈ visited
      · rw [if_pos hfirst, ih hvisited]
        constructor
        · rintro ⟨start, hstart, hrest⟩
          exact ⟨start, List.mem_cons_of_mem first hstart, hrest⟩
        · rintro ⟨start, hstart, hnew, hclass⟩
          rcases List.mem_cons.mp hstart with rfl | hstart
          · exact absurd hfirst hnew
          · exact ⟨start, hstart, hnew, hclass⟩
      · obtain ⟨hcollected, hmarked, hclosed⟩ := mem_explore hsymm hvisited hfirst
        rw [if_neg hfirst, List.mem_cons, ih hclosed]
        constructor
        · rintro (rfl | ⟨start, hstart, hnew, hclass⟩)
          · exact ⟨first, List.mem_cons_self, hfirst, hcollected⟩
          · rw [hmarked, not_or] at hnew
            exact ⟨start, List.mem_cons_of_mem first hstart, hnew.1, hclass⟩
        · rintro ⟨start, hstart, hnew, hclass⟩
          by_cases hway : ReflTransGen (Arc arcs) first start
          · have hsame := IsClass.of_mem hsymm hcollected ((hcollected start).mpr hway)
            exact Or.inl (hclass.eq hsame)
          · rcases List.mem_cons.mp hstart with rfl | hstart
            · exact absurd .refl hway
            · refine Or.inr ⟨start, hstart, ?_, hclass⟩
              rw [hmarked, not_or]
              exact ⟨hnew, hway⟩

theorem nodup_components (hsymm : BothWays arcs) (hvisited : Closed arcs visited) :
    (components arcs visited nodes).Nodup := by
  induction nodes generalizing visited with
  | nil => exact List.nodup_nil
  | cons first nodes ih =>
      rw [components]
      by_cases hfirst : first ∈ visited
      · rw [if_pos hfirst]
        exact ih hvisited
      · obtain ⟨hcollected, hmarked, hclosed⟩ := mem_explore hsymm hvisited hfirst
        rw [if_neg hfirst]
        refine List.nodup_cons.mpr ⟨fun hmem => ?_, ih hclosed⟩
        -- A later one starts at a node that the first search has not marked.
        obtain ⟨start, -, hnew, hclass⟩ := (mem_components hsymm hclosed).mp hmem
        rw [hmarked, not_or] at hnew
        exact hnew.2 ((hcollected start).mp (hclass.mem))

end Digraph

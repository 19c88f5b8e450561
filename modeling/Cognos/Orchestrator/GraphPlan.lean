/-
# `Cognos.Orchestrator.GraphPlan` — which graphs become plans

`has_cycle` works on positions in a list, with the indegrees in another; it is Kahn's sort
(`kahn_eq`), so it finds a cycle exactly when there is one.  The ends of edges are looked up
by node id.

    protoGraphToPlan_ok_iff   a graph becomes a plan when it is not empty, every end of an
                              edge is known, and no edge lies on a cycle
-/
import Mathlib
import Cognos.Lib.Kahn
import Cognos.Orchestrator.IntentAdapter

namespace Orchestrator

open Digraph (Acyclic)
open Ipc (IntentActionNode IntentActionEdge IntentActionGraph)

/-! ## Positions -/

section Positions

variable {nodes : List IntentActionNode}

theorem nodeId_of_idToIdx {id : String} {i : Fin nodes.length} (h : idToIdx nodes id = some i) :
    (nodes.get i).nodeId = id :=
  eq_of_beq (List.find?_some (p := fun i => (nodes.get i).nodeId == id) h)

/-- With distinct ids, a node is found at its own position. -/
theorem idToIdx_nodeId (hnodup : (nodes.map (·.nodeId)).Nodup) (i : Fin nodes.length) :
    idToIdx nodes (nodes.get i).nodeId = some i := by
  have hsome : (idToIdx nodes (nodes.get i).nodeId).isSome = true := by
    rw [idToIdx, List.find?_isSome]
    exact ⟨i, List.mem_reverse.mpr (List.mem_finRange i), beq_self_eq_true _⟩
  obtain ⟨j, hj⟩ := Option.isSome_iff_exists.mp hsome
  rw [hj]
  have hsame := nodeId_of_idToIdx hj
  have hinj : Function.Injective ((nodes.map (·.nodeId)).get) :=
    List.nodup_iff_injective_get.mp hnodup
  have hlength : nodes.length = (nodes.map (·.nodeId)).length := (List.length_map _).symm
  have hcast : j.cast hlength = i.cast hlength := by
    refine hinj ?_
    simpa using hsame
  have hval : (j.cast hlength).val = (i.cast hlength).val := congrArg Fin.val hcast
  exact congrArg some (Fin.ext hval)

/-- The pair of positions is the edge. -/
def At (nodes : List IntentActionNode) (e : IntentActionEdge)
    (p : Fin nodes.length × Fin nodes.length) : Prop :=
  idToIdx nodes e.fromNode = some p.1 ∧ idToIdx nodes e.toNode = some p.2

theorem planEdges_ok_iff {es : List IntentActionEdge}
    {ps : List (Fin nodes.length × Fin nodes.length)} :
    planEdges nodes es = .ok ps ↔ List.Forall₂ (At nodes) es ps := by
  induction es generalizing ps with
  | nil =>
      rw [List.forall₂_nil_left_iff]
      exact ⟨fun h => (Except.ok.inj h).symm, fun h => h ▸ rfl⟩
  | cons e es ih =>
      rw [planEdges, List.forall₂_cons_left_iff]
      constructor
      · intro h
        split at h
        · cases h
        · cases h
        · rename_i i j hi hj
          split at h
          · cases h
          · rename_i rest hrest
            exact ⟨(i, j), rest, ⟨hi, hj⟩, ih.mp hrest, (Except.ok.inj h).symm⟩
      · rintro ⟨⟨i, j⟩, rest, ⟨hi, hj⟩, hrest, rfl⟩
        simp only [hi, hj, ih.mpr hrest]

theorem exists_at {es : List IntentActionEdge} (h : ∀ e ∈ es, ∃ p, At nodes e p) :
    ∃ ps, List.Forall₂ (At nodes) es ps := by
  induction es with
  | nil => exact ⟨[], .nil⟩
  | cons e es ih =>
      obtain ⟨p, hp⟩ := h e List.mem_cons_self
      obtain ⟨ps, hps⟩ := ih fun e' he' => h e' (List.mem_cons_of_mem _ he')
      exact ⟨p :: ps, .cons hp hps⟩

/-- The ids at a pair of positions. -/
def ends (nodes : List IntentActionNode) (p : Fin nodes.length × Fin nodes.length) :
    String × String :=
  ((nodes.get p.1).nodeId, (nodes.get p.2).nodeId)

theorem ends_of_at {es : List IntentActionEdge} {ps : List (Fin nodes.length × Fin nodes.length)}
    (h : List.Forall₂ (At nodes) es ps) :
    ps.map (ends nodes) = es.map fun e => (e.fromNode, e.toNode) := by
  induction h with
  | nil => rfl
  | cons hat _ ih =>
      rw [List.map_cons, List.map_cons, ih, ends, nodeId_of_idToIdx hat.1, nodeId_of_idToIdx hat.2]

/-- A node of the plan's edges is the one its id is looked up as. -/
theorem idToIdx_of_mem {es : List IntentActionEdge}
    {ps : List (Fin nodes.length × Fin nodes.length)} (hat : List.Forall₂ (At nodes) es ps)
    {p : Fin nodes.length × Fin nodes.length} (hp : p ∈ ps) :
    idToIdx nodes (ends nodes p).1 = some p.1 ∧ idToIdx nodes (ends nodes p).2 = some p.2 := by
  induction hat with
  | nil => cases hp
  | cons hfirst _ ih =>
      rcases List.mem_cons.mp hp with rfl | hp
      · obtain ⟨hfrom, hto⟩ := hfirst
        rw [ends, nodeId_of_idToIdx hfrom, nodeId_of_idToIdx hto]
        exact ⟨hfrom, hto⟩
      · exact ih hp

end Positions

/-! ## `has_cycle` is Kahn's sort -/

section Cycle

variable {n : Nat}

/-- The targets of the edges that leave `a`. -/
def leaving (edges : List (Fin n × Fin n)) (a : Fin n) : List (Fin n) :=
  (edges.filter (·.1 = a)).map (·.2)

def vals (edges : List (Fin n × Fin n)) : List (Nat × Nat) :=
  edges.map fun e => (e.1.val, e.2.val)

theorem mem_leaving {edges : List (Fin n × Fin n)} {a b : Fin n} :
    b ∈ leaving edges a ↔ (a, b) ∈ edges := by
  simp [leaving]

theorem relax_eq (a : Fin n) (edges : List (Fin n × Fin n)) {indegree : List Nat}
    (hlength : indegree.length = n) (queue free : List (Fin n)) :
    ∃ indegree' : List Nat, indegree'.length = n ∧
      relax a.val (vals edges) (indegree, (queue ++ free).map (·.val)) =
        (indegree', (queue ++ ((leaving edges a).foldl Kahn.relax
          (fun b => indegree.getD b.val 0, free)).2).map (·.val)) ∧
      ((leaving edges a).foldl Kahn.relax (fun b => indegree.getD b.val 0, free)).1 =
        fun b => indegree'.getD b.val 0 := by
  induction edges generalizing indegree free with
  | nil => exact ⟨indegree, hlength, rfl, rfl⟩
  | cons e es ih =>
      by_cases he : e.1 = a
      · have hleaving : leaving (e :: es) a = e.2 :: leaving es a := by
          simp [leaving, he]
        have hcounter : Function.update (fun b : Fin n => indegree.getD b.val 0) e.2
            (indegree.getD e.2.val 0 - 1) =
            fun b => (indegree.set e.2.val (indegree.getD e.2.val 0 - 1)).getD b.val 0 := by
          funext b
          rcases eq_or_ne b e.2 with rfl | hne
          · have hset := List.getElem?_set_self (a := indegree.getD e.2.val 0 - 1)
              (hlength.symm ▸ e.2.isLt : e.2.val < indegree.length)
            rw [Function.update_self, List.getD_eq_getElem?_getD (l := indegree.set _ _), hset,
              Option.getD_some]
          · rw [Function.update_of_ne hne, List.getD_eq_getElem?_getD, List.getD_eq_getElem?_getD,
              List.getElem?_set_ne fun heq => hne (Fin.ext heq.symm)]
        have hfree : (if indegree.getD e.2.val 0 - 1 = 0 then
              (queue ++ free).map (·.val) ++ [e.2.val] else (queue ++ free).map (·.val)) =
            (queue ++ if indegree.getD e.2.val 0 - 1 = 0 then free ++ [e.2] else free).map
              (·.val) := by
          split_ifs
          · simp
          · rfl
        have hset : (indegree.set e.2.val (indegree.getD e.2.val 0 - 1)).length = n := by
          rw [List.length_set, hlength]
        obtain ⟨indegree', hlength', hrelax, hcount⟩ := ih hset
          (if indegree.getD e.2.val 0 - 1 = 0 then free ++ [e.2] else free)
        rw [hleaving, List.foldl_cons]
        show ∃ _, _ ∧ relax _ _ _ = (_, (_ ++ (List.foldl Kahn.relax (Function.update _ _ _, _)
          _).2).map _) ∧ (List.foldl Kahn.relax (Function.update _ _ _, _) _).1 = _
        rw [hcounter]
        refine ⟨indegree', hlength', ?_, hcount⟩
        rw [← hrelax, ← hfree]
        show relax a.val ((e.1.val, e.2.val) :: vals es) _ = _
        rw [relax, List.foldl_cons, if_pos ⟨congrArg Fin.val he, by rw [hlength]; exact e.2.isLt⟩]
        rfl
      · have hleaving : leaving (e :: es) a = leaving es a := by
          simp [leaving, he]
        rw [hleaving]
        obtain ⟨indegree', hlength', hrelax, hcount⟩ := ih hlength free
        refine ⟨indegree', hlength', ?_, hcount⟩
        rw [← hrelax]
        show relax a.val ((e.1.val, e.2.val) :: vals es) _ = _
        rw [relax, List.foldl_cons, if_neg fun h => he (Fin.ext h.1)]
        rfl

theorem kahn_eq (edges : List (Fin n × Fin n)) (rounds : Nat) {indegree : List Nat}
    (hlength : indegree.length = n) (queue : List (Fin n)) :
    kahn (vals edges) rounds (indegree, queue.map (·.val)) =
      (Kahn.loop (leaving edges) id rounds (fun b => indegree.getD b.val 0) queue).length := by
  induction rounds generalizing indegree queue with
  | zero => rfl
  | succ rounds ih =>
      cases queue with
      | nil => rfl
      | cons a queue =>
          obtain ⟨indegree', hlength', hrelax, hcount⟩ := relax_eq a edges hlength queue []
          rw [List.append_nil] at hrelax
          show kahn (vals edges) rounds (relax a.val (vals edges)
            (indegree, queue.map (·.val))) + 1 = _
          rw [hrelax, ih hlength', ← hcount]
          rfl

theorem count_leaving (edges : List (Fin n × Fin n)) (a b : Fin n) :
    (leaving edges a).count b = edges.count (a, b) := by
  rw [leaving, List.count, List.countP_map, List.countP_filter]
  refine List.countP_congr fun e _ => ?_
  simp [Prod.ext_iff, and_comm]

theorem indegree_eq (edges : List (Fin n × Fin n)) (b : Fin n) :
    ((vals edges).filter (·.2 = b.val)).length =
      Kahn.indegree (List.finRange n) (leaving edges) b := by
  rw [Kahn.indegree, ← Fin.sum_univ_def]
  simp only [count_leaving]
  induction edges with
  | nil => simp [vals]
  | cons e es ih =>
      have hone : ∑ a, (if e == (a, b) then 1 else 0) = if e.2.val = b.val then 1 else 0 := by
        obtain ⟨i, j⟩ := e
        simp only [beq_iff_eq, Prod.mk.injEq, Fin.val_inj]
        split_ifs with hj
        · simp [hj]
        · simp [hj]
      simp only [List.count_cons, Finset.sum_add_distrib, hone, ← ih]
      show (List.filter _ ((e.1.val, e.2.val) :: vals es)).length = _
      rw [List.filter_cons]
      split_ifs with hj hj'
      · rw [List.length_cons]
      · exact absurd (of_decide_eq_true hj) hj'
      · exact absurd (decide_eq_true ‹_›) hj
      · rfl

/-- The counters `has_cycle` starts with. -/
def indegrees (edges : List (Fin n × Fin n)) : List Nat :=
  (List.range n).map fun i => ((vals edges).filter (·.2 = i)).length

theorem length_indegrees (edges : List (Fin n × Fin n)) : (indegrees edges).length = n := by
  rw [indegrees, List.length_map, List.length_range]

theorem indegrees_eq (edges : List (Fin n × Fin n)) :
    (fun b : Fin n => (indegrees edges).getD b.val 0) =
      Kahn.indegree (List.finRange n) (leaving edges) := by
  funext b
  rw [← indegree_eq, List.getD_eq_getElem?_getD]
  simp [indegrees]

/-- The nodes nothing leads to. -/
def roots (edges : List (Fin n × Fin n)) : List (Fin n) :=
  (List.finRange n).filter fun b => Kahn.indegree (List.finRange n) (leaving edges) b = 0

/-- The queue `has_cycle` starts with. -/
theorem filter_indegrees (edges : List (Fin n × Fin n)) :
    (List.range n).filter (fun i => (indegrees edges).getD i 0 = 0) =
      (roots edges).map (·.val) := by
  rw [roots, ← indegrees_eq, ← List.map_coe_finRange_eq_range, List.filter_map]
  rfl

/-- A cycle is found exactly when there is one. -/
theorem hasCycle_iff {edges : List (Fin n × Fin n)} :
    hasCycle n (vals edges) = false ↔ Acyclic fun a b => (a, b) ∈ edges := by
  have hsorts : Kahn.Sorts (List.finRange n) (leaving edges) (Kahn.loop (leaving edges) id
      (List.finRange n).length (Kahn.indegree (List.finRange n) (leaving edges)) (roots edges)) :=
    Kahn.sorts_visited (List.nodup_finRange n) (fun _ _ b _ => List.mem_finRange b)
      (fun l => .refl l) (.refl _)
  have hacyclic := Kahn.length_eq_iff (List.nodup_finRange n)
    (fun a _ b _ => List.mem_finRange b) hsorts
  have harc : Kahn.Arc (List.finRange n) (leaving edges) = fun a b => (a, b) ∈ edges := by
    funext a b
    exact propext ⟨fun h => mem_leaving.mp h.2, fun h => ⟨List.mem_finRange a, mem_leaving.mpr h⟩⟩
  rw [harc, List.length_finRange, ← indegrees_eq, ← kahn_eq edges n (length_indegrees edges),
    ← filter_indegrees] at hacyclic
  rw [← hacyclic]
  show (kahn _ n (indegrees edges, (List.range n).filter fun i =>
    (indegrees edges).getD i 0 = 0) != n) = false ↔ _
  rw [bne_eq_false_iff_eq]

end Cycle

/-! ## The plan -/

/-- The plan with one node for each of the graph's. -/
def planOf (nodes : List IntentActionNode) (edges : List (Fin nodes.length × Fin nodes.length)) :
    DecompositionPlan :=
  have hlength : nodes.length = (nodes.map plannedNode).length := by simp
  ⟨nodes.map plannedNode, edges.map fun e => (e.1.cast hlength, e.2.cast hlength)⟩

theorem length_planOf (nodes : List IntentActionNode)
    (edges : List (Fin nodes.length × Fin nodes.length)) :
    (planOf nodes edges).nodes.length = nodes.length :=
  List.length_map _

theorem get_planOf {nodes : List IntentActionNode}
    {edges : List (Fin nodes.length × Fin nodes.length)}
    (i : Fin (planOf nodes edges).nodes.length) :
    (planOf nodes edges).nodes.get i =
      plannedNode (nodes.get (i.cast (length_planOf nodes edges))) :=
  List.getElem_map _

theorem mem_edges_planOf {nodes : List IntentActionNode}
    {edges : List (Fin nodes.length × Fin nodes.length)}
    {i j : Fin (planOf nodes edges).nodes.length} :
    (i, j) ∈ (planOf nodes edges).edges ↔
      (i.cast (length_planOf nodes edges), j.cast (length_planOf nodes edges)) ∈ edges := by
  constructor
  · intro h
    obtain ⟨p, hp, heq⟩ := List.mem_map.mp h
    obtain ⟨rfl, rfl⟩ := Prod.mk.inj heq
    exact hp
  · intro h
    exact List.mem_map.mpr ⟨_, h, rfl⟩

theorem protoGraphToPlan_ok_iff {graph : IntentActionGraph} {plan : DecompositionPlan} :
    protoGraphToPlan graph = .ok plan ↔ graph.nodes ≠ [] ∧
      ∃ edges, List.Forall₂ (At graph.nodes) graph.deps edges ∧
        Acyclic (fun a b => (a, b) ∈ edges) ∧ plan = planOf graph.nodes edges := by
  unfold protoGraphToPlan
  split_ifs with hempty
  · constructor
    · intro h
      cases h
    · rintro ⟨hnodes, -⟩
      exact absurd hempty hnodes
  · rw [and_iff_right hempty]
    cases hedges : planEdges graph.nodes graph.deps with
    | error e =>
        constructor
        · intro h
          cases h
        · rintro ⟨edges, hat, -⟩
          rw [planEdges_ok_iff.mpr hat] at hedges
          cases hedges
    | ok edges =>
        have hat := planEdges_ok_iff.mp hedges
        have hunique : ∀ edges', List.Forall₂ (At graph.nodes) graph.deps edges' →
            edges' = edges := by
          intro edges' hat'
          exact Except.ok.inj ((planEdges_ok_iff.mpr hat').symm.trans hedges)
        show (if hasCycle _ (vals edges) = true then _ else _) = _ ↔ _
        split_ifs with hcycle
        · constructor
          · intro h
            cases h
          · rintro ⟨edges', hat', hacyclic, -⟩
            rw [hunique edges' hat'] at hacyclic
            rw [hasCycle_iff.mpr hacyclic] at hcycle
            cases hcycle
        · constructor
          · intro h
            exact ⟨edges, hat, hasCycle_iff.mp (Bool.eq_false_iff.mpr hcycle),
              (Except.ok.inj h).symm⟩
          · rintro ⟨edges', hat', -, rfl⟩
            rw [hunique edges' hat']
            rfl

end Orchestrator

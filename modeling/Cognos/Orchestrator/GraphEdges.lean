/-
# `Cognos.Orchestrator.GraphEdges` — the plan of an accepted graph, edge by edge

A graph that is accepted becomes a plan with its nodes in their order, and each of its
dependencies becomes one edge.  The ends of an edge are looked up by id, and where ids repeat
the last node with an id is the one that is found: nothing checks that they do not.

The counters of `has_cycle` are unsigned.  `hasCycleChecked` is the same function with the
subtraction that panics below zero, and it never does.

    hasCycleChecked_eq     no counter goes below zero
    exists_plan_iff        a graph is accepted when it has nodes, the ends of its dependencies
                           are known, and the dependencies have no cycle
    plan_of_accepted       what the plan of an accepted graph is
-/
import Mathlib
import Cognos.Orchestrator.GraphPlan

namespace Orchestrator

open Digraph (Acyclic)
open Ipc (IntentActionNode IntentActionEdge IntentActionGraph)
open Relation

/-! ## The counters -/

/-- `relax`, where a counter that would go below zero ends the program. -/
def relaxChecked (id : Nat) (edges : List (Nat × Nat)) (st : List Nat × List Nat) :
    Option (List Nat × List Nat) :=
  edges.foldlM (fun st e =>
    if e.1 = id ∧ e.2 < st.1.length then
      if st.1.getD e.2 0 = 0 then none
      else
        let d := st.1.getD e.2 0 - 1
        some (st.1.set e.2 d, if d = 0 then st.2 ++ [e.2] else st.2)
    else some st) st

/-- `kahn`, over the checked subtraction. -/
def kahnChecked (edges : List (Nat × Nat)) : Nat → List Nat × List Nat → Option Nat
  | 0, _ => some 0
  | _ + 1, (_, []) => some 0
  | rounds + 1, (indegree, id :: queue) => do
      let st ← relaxChecked id edges (indegree, queue)
      return (← kahnChecked edges rounds st) + 1

/-- `has_cycle`, over the checked subtraction. -/
def hasCycleChecked (nodeCount : Nat) (edges : List (Nat × Nat)) : Option Bool := do
  let indegree := (List.range nodeCount).map (fun i => (edges.filter (·.2 = i)).length)
  let queue := (List.range nodeCount).filter (fun i => indegree.getD i 0 = 0)
  return (← kahnChecked edges nodeCount (indegree, queue)) != nodeCount

section Counters

variable {n : Nat}

/-- Where the counters have room for the edges out of `a`, taking them off succeeds. -/
theorem relaxChecked_eq (a : Fin n) (edges : List (Fin n × Fin n)) {indegree : List Nat}
    (hlength : indegree.length = n) (queue : List Nat)
    (hroom : ∀ b : Fin n, (leaving edges a).count b ≤ indegree.getD b.val 0) :
    relaxChecked a.val (vals edges) (indegree, queue) =
      some (relax a.val (vals edges) (indegree, queue)) := by
  induction edges generalizing indegree queue with
  | nil => rfl
  | cons e es ih =>
      show relaxChecked a.val ((e.1.val, e.2.val) :: vals es) _ =
        some (relax a.val ((e.1.val, e.2.val) :: vals es) _)
      rw [relaxChecked, relax, List.foldlM_cons, List.foldl_cons]
      by_cases he : e.1 = a
      · have hleaving : leaving (e :: es) a = e.2 :: leaving es a := by
          simp [leaving, he]
        rw [hleaving] at hroom
        have hone := hroom e.2
        rw [List.count_cons_self] at hone
        have hpos : indegree.getD e.2.val 0 ≠ 0 := by omega
        have htaken : e.1.val = a.val ∧ e.2.val < indegree.length :=
          ⟨congrArg Fin.val he, by rw [hlength]; exact e.2.isLt⟩
        rw [if_pos htaken, if_pos htaken, if_neg hpos]
        have hset : (indegree.set e.2.val (indegree.getD e.2.val 0 - 1)).length = n := by
          rw [List.length_set, hlength]
        refine ih hset _ fun b => ?_
        have hb := hroom b
        rcases eq_or_ne b e.2 with rfl | hne
        · rw [List.getD_eq_getElem?_getD (l := indegree.set _ _),
            List.getElem?_set_self htaken.2, Option.getD_some]
          omega
        · have hold : (indegree.set e.2.val (indegree.getD e.2.val 0 - 1)).getD b.val 0 =
              indegree.getD b.val 0 := by
            rw [List.getD_eq_getElem?_getD (l := indegree.set _ _),
              List.getElem?_set_ne fun heq => hne (Fin.ext heq.symm)]
            exact List.getD_eq_getElem?_getD.symm
          rw [List.count_cons_of_ne hne.symm] at hb
          rw [hold]
          exact hb
      · have hleaving : leaving (e :: es) a = leaving es a := by
          simp [leaving, he]
        rw [hleaving] at hroom
        have hother : ¬ (e.1.val = a.val ∧ e.2.val < indegree.length) := fun h => he (Fin.ext h.1)
        rw [if_neg hother, if_neg hother]
        exact ih hlength queue hroom

theorem kahnChecked_eq (edges : List (Fin n × Fin n)) (rounds : Nat) {indegree : List Nat}
    (hlength : indegree.length = n) (queue : List (Fin n))
    (hroomy : Kahn.Roomy (leaving edges) id rounds (fun b => indegree.getD b.val 0) queue) :
    kahnChecked (vals edges) rounds (indegree, queue.map (·.val)) =
      some (kahn (vals edges) rounds (indegree, queue.map (·.val))) := by
  induction rounds generalizing indegree queue with
  | zero => rfl
  | succ rounds ih =>
      cases queue with
      | nil => rfl
      | cons a queue =>
          obtain ⟨hroom, hroomy⟩ := hroomy
          obtain ⟨indegree', hlength', hrelax, hcount⟩ := relax_eq a edges hlength queue []
          rw [List.append_nil] at hrelax
          rw [hcount] at hroomy
          have hchecked := relaxChecked_eq a edges hlength (queue.map (·.val)) hroom
          rw [hrelax] at hchecked
          have hnext := ih hlength' _ hroomy
          show (relaxChecked a.val (vals edges) (indegree, queue.map (·.val))).bind _ =
            some (kahn (vals edges) rounds (relax a.val (vals edges)
              (indegree, queue.map (·.val))) + 1)
          rw [hchecked, hrelax]
          show (kahnChecked (vals edges) rounds _).bind _ = _
          rw [id] at hnext
          rw [hnext]
          rfl

/-- No counter goes below zero. -/
theorem hasCycleChecked_eq (edges : List (Fin n × Fin n)) :
    hasCycleChecked n (vals edges) = some (hasCycle n (vals edges)) := by
  have hroomy := Kahn.Inv.roomy (List.nodup_finRange n) (fun _ _ b _ => List.mem_finRange b)
    (fun l => .refl l) n (Kahn.Inv.start (List.nodup_finRange n) (.refl (roots edges)))
  rw [← indegrees_eq] at hroomy
  have hchecked := kahnChecked_eq edges n (length_indegrees edges) _ hroomy
  rw [← filter_indegrees] at hchecked
  exact (congrArg (Option.bind · fun visited => some (visited != n)) hchecked :)

end Counters

/-! ## Known ends -/

section Ends

variable {nodes : List IntentActionNode}

/-- Of the nodes with this id, the last one. -/
def LastAt (nodes : List IntentActionNode) (id : String) (i : Fin nodes.length) : Prop :=
  (nodes.get i).nodeId = id ∧ ∀ j, (nodes.get j).nodeId = id → j ≤ i

/-- What is looked up is the last node with the id. -/
theorem idToIdx_eq_some {id : String} {i : Fin nodes.length} :
    idToIdx nodes id = some i ↔ LastAt nodes id i := by
  have hsorted : (List.finRange nodes.length).reverse.Pairwise (· > ·) :=
    List.pairwise_reverse.mpr (List.pairwise_lt_finRange nodes.length)
  rw [idToIdx, List.find?_eq_some_iff_append]
  constructor
  · rintro ⟨hi, past, rest, hsplit, hpast⟩
    refine ⟨eq_of_beq hi, fun j hj => ?_⟩
    have hmem : j ∈ past ++ i :: rest := by
      rw [← hsplit]
      exact List.mem_reverse.mpr (List.mem_finRange j)
    rcases List.mem_append.mp hmem with hmem | hmem
    · have hnot := hpast j hmem
      rw [hj, beq_self_eq_true] at hnot
      cases hnot
    · rcases List.mem_cons.mp hmem with rfl | hmem
      · exact le_refl _
      · rw [hsplit] at hsorted
        have hrest := (List.pairwise_cons.mp (List.pairwise_append.mp hsorted).2.1).1
        exact le_of_lt (hrest j hmem)
  · rintro ⟨hi, hlast⟩
    have hmem : i ∈ (List.finRange nodes.length).reverse :=
      List.mem_reverse.mpr (List.mem_finRange i)
    obtain ⟨past, rest, hsplit⟩ := List.append_of_mem hmem
    refine ⟨beq_iff_eq.mpr hi, past, rest, hsplit, fun j hj => ?_⟩
    rw [hsplit] at hsorted
    have hlt : j > i := (List.pairwise_append.mp hsorted).2.2 j hj i List.mem_cons_self
    rw [Bool.not_eq_true', ← Bool.not_eq_true, beq_iff_eq]
    exact fun hid => absurd (hlast j hid) (not_le.mpr hlt)

/-- An id is found exactly when a node has it. -/
theorem exists_idToIdx {id : String} :
    (∃ i, idToIdx nodes id = some i) ↔ id ∈ nodes.map (·.nodeId) := by
  rw [← Option.isSome_iff_exists, idToIdx, List.find?_isSome]
  constructor
  · rintro ⟨i, -, hi⟩
    rw [← eq_of_beq hi]
    exact List.mem_map_of_mem (List.get_mem nodes i)
  · intro hmem
    obtain ⟨node, hnode, rfl⟩ := List.mem_map.mp hmem
    obtain ⟨i, hi⟩ := List.get_of_mem hnode
    refine ⟨i, List.mem_reverse.mpr (List.mem_finRange i), ?_⟩
    rw [hi, beq_self_eq_true]

end Ends

/-! ## What is accepted -/

/-- The graph has a dependency of `b` on `a`. -/
def Depends (graph : IntentActionGraph) (a b : String) : Prop :=
  ∃ e ∈ graph.deps, e.fromNode = a ∧ e.toNode = b

/-- Both ends of every dependency are nodes of the graph. -/
def KnownEnds (graph : IntentActionGraph) : Prop :=
  ∀ e ∈ graph.deps, e.fromNode ∈ graph.nodes.map (·.nodeId) ∧
    e.toNode ∈ graph.nodes.map (·.nodeId)

theorem knownEnds_iff {graph : IntentActionGraph} :
    KnownEnds graph ↔ ∃ edges, List.Forall₂ (At graph.nodes) graph.deps edges := by
  constructor
  · intro h
    refine exists_at fun e he => ?_
    obtain ⟨i, hi⟩ := exists_idToIdx.mpr (h e he).1
    obtain ⟨j, hj⟩ := exists_idToIdx.mpr (h e he).2
    exact ⟨(i, j), hi, hj⟩
  · rintro ⟨edges, hat⟩
    have hall : ∀ e ∈ graph.deps, ∃ p, At graph.nodes e p := by
      generalize graph.deps = deps at hat
      induction hat with
      | nil => exact List.forall_mem_nil _
      | cons hfirst _ ih => exact List.forall_mem_cons.mpr ⟨⟨_, hfirst⟩, ih⟩
    intro e he
    obtain ⟨p, hfrom, hto⟩ := hall e he
    exact ⟨exists_idToIdx.mp ⟨_, hfrom⟩, exists_idToIdx.mp ⟨_, hto⟩⟩

/-- The edges of the plan have a cycle exactly when the dependencies have one. -/
theorem acyclic_iff_depends {graph : IntentActionGraph}
    {edges : List (Fin graph.nodes.length × Fin graph.nodes.length)}
    (hnodes : graph.nodes ≠ []) (hat : List.Forall₂ (At graph.nodes) graph.deps edges) :
    Acyclic (fun a b => (a, b) ∈ edges) ↔ Acyclic (Depends graph) := by
  have hends : ∀ a b, Depends graph a b ↔ ∃ p ∈ edges, ends graph.nodes p = (a, b) := by
    intro a b
    rw [← List.mem_map, ends_of_at hat, List.mem_map]
    simp only [Depends, Prod.mk.injEq]
  -- the place an id is looked up at, any place for an unknown one
  let place : String → Fin graph.nodes.length := fun id =>
    (idToIdx graph.nodes id).getD ⟨0, List.length_pos_iff.mpr hnodes⟩
  constructor
  · intro hacyclic a ha
    refine hacyclic (place a) (TransGen.lift place (fun x y hxy => ?_) a a ha)
    obtain ⟨p, hp, heq⟩ := (hends x y).mp hxy
    obtain ⟨hx, hy⟩ := idToIdx_of_mem hat hp
    rw [heq] at hx hy
    show (place x, place y) ∈ edges
    simp only [place, hx, hy, Option.getD_some]
    exact hp
  · intro hacyclic i hi
    refine hacyclic (graph.nodes.get i).nodeId
      (TransGen.lift (fun j => (graph.nodes.get j).nodeId) (fun j k hjk => ?_) i i hi)
    exact (hends _ _).mpr ⟨(j, k), hjk, rfl⟩

/-- A graph is accepted exactly when it has nodes, the ends of its dependencies are known, and
the dependencies have no cycle. -/
theorem exists_plan_iff {graph : IntentActionGraph} :
    (∃ plan, protoGraphToPlan graph = .ok plan) ↔
      graph.nodes ≠ [] ∧ KnownEnds graph ∧ Acyclic (Depends graph) := by
  constructor
  · rintro ⟨plan, hplan⟩
    obtain ⟨hnodes, edges, hat, hacyclic, -⟩ := protoGraphToPlan_ok_iff.mp hplan
    exact ⟨hnodes, knownEnds_iff.mpr ⟨edges, hat⟩, (acyclic_iff_depends hnodes hat).mp hacyclic⟩
  · rintro ⟨hnodes, hknown, hacyclic⟩
    obtain ⟨edges, hat⟩ := knownEnds_iff.mp hknown
    exact ⟨_, protoGraphToPlan_ok_iff.mpr
      ⟨hnodes, edges, hat, (acyclic_iff_depends hnodes hat).mpr hacyclic, rfl⟩⟩

/-! ## The plan -/

/-- The edge of the plan joins the last nodes that have the ids of the dependency. -/
def Joins (graph : IntentActionGraph) (plan : DecompositionPlan)
    (hlength : plan.nodes.length = graph.nodes.length) (e : IntentActionEdge)
    (p : Fin plan.nodes.length × Fin plan.nodes.length) : Prop :=
  LastAt graph.nodes e.fromNode (p.1.cast hlength) ∧ LastAt graph.nodes e.toNode (p.2.cast hlength)

/-- Where the ids are distinct, the edge joins exactly the nodes that have them. -/
theorem lastAt_iff_of_nodup {nodes : List IntentActionNode}
    (hnodup : (nodes.map (·.nodeId)).Nodup) {id : String} {i : Fin nodes.length} :
    LastAt nodes id i ↔ (nodes.get i).nodeId = id := by
  refine ⟨fun h => h.1, fun h => ?_⟩
  rw [← idToIdx_eq_some, ← h]
  exact idToIdx_nodeId hnodup i

/-- What `proto_graph_to_plan` makes of a graph, whether its ids are distinct or not: a node for
each node, an edge for each dependency, in their order. -/
structure Planned (graph : IntentActionGraph) (plan : DecompositionPlan) : Prop where
  nodes : plan.nodes = graph.nodes.map plannedNode
  edges : ∃ hlength : plan.nodes.length = graph.nodes.length,
    List.Forall₂ (Joins graph plan hlength) graph.deps plan.edges

theorem planned_of_accepted {graph : IntentActionGraph} {plan : DecompositionPlan}
    (h : protoGraphToPlan graph = .ok plan) : Planned graph plan := by
  obtain ⟨-, edges, hat, -, rfl⟩ := protoGraphToPlan_ok_iff.mp h
  refine ⟨rfl, length_planOf graph.nodes edges, List.forall₂_map_right_iff.mpr ?_⟩
  refine hat.imp fun e p hp => ?_
  exact ⟨idToIdx_eq_some.mp hp.1, idToIdx_eq_some.mp hp.2⟩

/-- An accepted graph becomes a plan with a node for each node and, for each dependency, the edge
between the last nodes with its ids, which are the only ones where ids are distinct; a graph is
accepted exactly when it has nodes, knows the ends of its dependencies and has no cycle; and no
counter goes below zero. -/
theorem keeps_dependencies (graph : IntentActionGraph) :
    (∀ plan, protoGraphToPlan graph = .ok plan → Planned graph plan) ∧
      ((graph.nodes.map (·.nodeId)).Nodup →
        ∀ id i, LastAt graph.nodes id i ↔ (graph.nodes.get i).nodeId = id) ∧
      ((∃ plan, protoGraphToPlan graph = .ok plan) ↔
        graph.nodes ≠ [] ∧ KnownEnds graph ∧ Acyclic (Depends graph)) ∧
      ∀ edges : List (Fin graph.nodes.length × Fin graph.nodes.length),
        hasCycleChecked graph.nodes.length (vals edges) =
          some (hasCycle graph.nodes.length (vals edges)) :=
  ⟨fun _ h => planned_of_accepted h, fun hnodup _ _ => lastAt_iff_of_nodup hnodup, exists_plan_iff,
    hasCycleChecked_eq⟩

/-! Two nodes with one id, and a node that depends on it. -/

def sameId : IntentActionGraph where
  nodes := [⟨"a", "", "search_files", "notes", 0.9, 0.1⟩,
    ⟨"a", "", "delete_files", "notes", 0.9, 0.1⟩, ⟨"b", "", "open_files", "notes", 0.9, 0.1⟩]
  deps := [⟨"a", "b"⟩]

/-- The graph is accepted, and what depends on the search waits for the deletion. -/
theorem not_kept_sameId : ∃ plan, protoGraphToPlan sameId = .ok plan ∧
    ¬ (plan.nodes.map (·.protoNodeId)).Nodup ∧
    plan.edges.map (fun p => ((plan.nodes.get p.1).subTask.action,
      (plan.nodes.get p.2).subTask.action)) = [("delete_files", "open_files")] :=
  ⟨planOf sameId.nodes [((1 : Fin 3), (2 : Fin 3))], rfl, by decide, rfl⟩

end Orchestrator

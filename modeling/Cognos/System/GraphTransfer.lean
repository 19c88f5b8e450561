/-
# `Cognos.System.GraphTransfer` — the graph that is built and the plan that arrives

The intent engine keeps actions by the id of their node and sends them as a list, with texts
for ids; the orchestrator makes a plan of positions.  What arrives is what was built
(`Mirrors`), whenever something arrives: a graph without nodes is refused, and one with a
cycle (`transferred_iff`).
-/
import Mathlib
import Cognos.IntentEngine.Service
import Cognos.Orchestrator.GraphPlan

namespace System

open Orchestrator
open IntentEngine (ActionGraph ActionNode Walks graphToProto nodeToProto edgeToProto)
open Digraph (Acyclic)

/-- The nodes of the plan are those of the graph, one for one, with their actions and targets,
and its edges are the dependencies, one for one and in the same direction. -/
structure Mirrors (g : ActionGraph) (plan : DecompositionPlan)
    (nodeAt : Fin plan.nodes.length → Uuid) : Prop where
  injective : Function.Injective nodeAt
  onto : ∀ id, id ∈ g.nodes ↔ ∃ i, nodeAt i = id
  node : ∀ i, ∃ n, g.get (nodeAt i) = some n ∧
    (plan.nodes.get i).subTask.action = n.action ∧
    (plan.nodes.get i).subTask.target = n.target ∧
    (plan.nodes.get i).protoNodeId = some (nodeAt i).text
  edge : ∀ i j, (i, j) ∈ plan.edges ↔ g.Dep (nodeAt i) (nodeAt j)
  once : plan.edges.Nodup

/-! ## The graph on the wire -/

section Sent

variable {g : ActionGraph} {w : Walks}

theorem length_sent : (graphToProto w g).nodes.length = (g.ordered w).length :=
  List.length_map _

/-- The id of the node at a position of the list that is sent. -/
def sentAt (g : ActionGraph) (w : Walks) (i : Fin (graphToProto w g).nodes.length) : Uuid :=
  ((g.ordered w).get (i.cast length_sent)).nodeId

theorem get_sent (i : Fin (graphToProto w g).nodes.length) :
    (graphToProto w g).nodes.get i = nodeToProto ((g.ordered w).get (i.cast length_sent)) :=
  List.getElem_map _

theorem sentAt_text (i : Fin (graphToProto w g).nodes.length) :
    ((graphToProto w g).nodes.get i).nodeId = (sentAt g w i).text := by
  rw [get_sent]
  rfl

theorem get_sentAt (i : Fin (graphToProto w g).nodes.length) :
    g.get (sentAt g w i) = some ((g.ordered w).get (i.cast length_sent)) :=
  ActionGraph.get_of_mem_ordered (List.get_mem _ _)

theorem sentAt_injective : Function.Injective (sentAt g w) := by
  intro i j h
  have hnodup : ((g.ordered w).map (·.nodeId)).Nodup :=
    (ActionGraph.ordered_perm g w).nodup_iff.mpr g.nodes.keys_nodup
  have hinj := List.inj_on_of_nodup_map hnodup (List.get_mem _ _) (List.get_mem _ _) h
  have hcast := (List.nodup_iff_injective_get.mp hnodup.of_map) hinj
  exact Fin.ext (congrArg Fin.val hcast : (i.cast length_sent).val = (j.cast length_sent).val)

theorem sentAt_onto {id : Uuid} : id ∈ g.nodes ↔ ∃ i, sentAt g w i = id := by
  constructor
  · intro h
    have hmem := (ActionGraph.ordered_perm g w).mem_iff.mpr h
    obtain ⟨n, hn, rfl⟩ := List.mem_map.mp hmem
    obtain ⟨i, rfl⟩ := List.get_of_mem hn
    exact ⟨i.cast length_sent.symm, rfl⟩
  · rintro ⟨i, rfl⟩
    exact AList.lookup_isSome.mp (Option.isSome_iff_exists.mpr ⟨_, get_sentAt i⟩)

theorem idToIdx_sent (i : Fin (graphToProto w g).nodes.length) :
    idToIdx (graphToProto w g).nodes (sentAt g w i).text = some i := by
  have hnodup : ((graphToProto w g).nodes.map (·.nodeId)).Nodup := by
    have htexts : (graphToProto w g).nodes.map (·.nodeId) =
        ((g.ordered w).map (·.nodeId)).map Uuid.text := by
      rw [graphToProto, List.map_map, List.map_map]
      rfl
    rw [htexts]
    exact ((ActionGraph.ordered_perm g w).nodup_iff.mpr g.nodes.keys_nodup).map
      Uuid.text_injective
  rw [← sentAt_text]
  exact idToIdx_nodeId hnodup i

/-- The ends of every edge that is sent are known. -/
theorem exists_edges (g : ActionGraph) (w : Walks) :
    ∃ edges, List.Forall₂ (At (graphToProto w g).nodes) (graphToProto w g).deps edges := by
  refine exists_at fun e he => ?_
  obtain ⟨⟨a, b⟩, hab, rfl⟩ := List.mem_map.mp he
  have hdep := ActionGraph.mem_dependencies.mp hab
  obtain ⟨i, rfl⟩ := (sentAt_onto (w := w)).mp hdep.mem.1
  obtain ⟨j, rfl⟩ := (sentAt_onto (w := w)).mp hdep.mem.2
  exact ⟨(i, j), idToIdx_sent i, idToIdx_sent j⟩

section Edges

variable {edges : List (Fin (graphToProto w g).nodes.length × Fin (graphToProto w g).nodes.length)}

theorem ends_eq (h : List.Forall₂ (At (graphToProto w g).nodes) (graphToProto w g).deps edges) :
    edges.map (fun p => (sentAt g w p.1, sentAt g w p.2)) = g.dependencies w := by
  have hends := ends_of_at h
  refine List.map_injective_iff.mpr
    (Function.Injective.prodMap Uuid.text_injective Uuid.text_injective) ?_
  rw [List.map_map]
  have hleft : edges.map (ends (graphToProto w g).nodes) =
      edges.map (Prod.map Uuid.text Uuid.text ∘ fun p => (sentAt g w p.1, sentAt g w p.2)) := by
    refine List.map_congr_left fun p _ => ?_
    rw [ends, sentAt_text, sentAt_text]
    rfl
  rw [← hleft, hends, graphToProto, List.map_map]
  rfl

theorem mem_edges (h : List.Forall₂ (At (graphToProto w g).nodes) (graphToProto w g).deps edges)
    (i j : Fin (graphToProto w g).nodes.length) :
    (i, j) ∈ edges ↔ g.Dep (sentAt g w i) (sentAt g w j) := by
  rw [← ActionGraph.mem_dependencies (w := w), ← ends_eq h]
  have hinj : Function.Injective fun p : Fin (graphToProto w g).nodes.length ×
      Fin (graphToProto w g).nodes.length => (sentAt g w p.1, sentAt g w p.2) :=
    Function.Injective.prodMap sentAt_injective sentAt_injective
  exact (List.mem_map_of_injective hinj (a := (i, j))).symm

theorem acyclic_edges
    (h : List.Forall₂ (At (graphToProto w g).nodes) (graphToProto w g).deps edges) :
    Acyclic (fun i j => (i, j) ∈ edges) ↔ Acyclic g.Dep :=
  Digraph.acyclic_iff_of_names sentAt_injective (mem_edges h)
    fun _ _ hdep => sentAt_onto.mp hdep.mem.2

end Edges

end Sent

/-! ## What arrives -/

/-- A graph arrives as it was built exactly when it has a node, and no cycle. -/
theorem transferred_iff (g : ActionGraph) (w : Walks) :
    (∃ plan nodeAt, protoGraphToPlan (graphToProto w g) = .ok plan ∧ Mirrors g plan nodeAt) ↔
      g.nodes.keys ≠ [] ∧ Acyclic g.Dep := by
  have hempty : (graphToProto w g).nodes ≠ [] ↔ g.nodes.keys ≠ [] := by
    rw [Ne, Ne, ← List.length_eq_zero_iff, ← List.length_eq_zero_iff, length_sent,
      ← (ActionGraph.ordered_perm g w).length_eq, List.length_map]
  obtain ⟨edges, hat⟩ := exists_edges g w
  constructor
  · rintro ⟨plan, nodeAt, hplan, -⟩
    obtain ⟨hnodes, edges', hat', hacyclic, -⟩ := protoGraphToPlan_ok_iff.mp hplan
    exact ⟨hempty.mp hnodes, (acyclic_edges hat').mp hacyclic⟩
  · rintro ⟨hkeys, hacyclic⟩
    refine ⟨planOf (graphToProto w g).nodes edges,
      fun i => sentAt g w (i.cast (length_planOf _ edges)), ?_, ?_⟩
    · exact protoGraphToPlan_ok_iff.mpr
        ⟨hempty.mpr hkeys, edges, hat, (acyclic_edges hat).mpr hacyclic, rfl⟩
    · refine ⟨?_, ?_, ?_, ?_, ?_⟩
      · exact sentAt_injective.comp (Fin.cast_injective _)
      · intro id
        rw [sentAt_onto (w := w)]
        constructor
        · rintro ⟨i, hi⟩
          exact ⟨i.cast (length_planOf _ edges).symm, hi⟩
        · rintro ⟨i, hi⟩
          exact ⟨_, hi⟩
      · intro i
        refine ⟨_, get_sentAt _, ?_⟩
        rw [get_planOf, ← sentAt_text, get_sent]
        exact ⟨rfl, rfl, rfl⟩
      · intro i j
        rw [mem_edges_planOf, mem_edges hat]
      · have hnodup : edges.Nodup := by
          refine List.Nodup.of_map (fun p => (sentAt g w p.1, sentAt g w p.2)) ?_
          rw [ends_eq hat]
          exact ActionGraph.nodup_dependencies g w
        refine hnodup.map ?_
        exact Function.Injective.prodMap (Fin.cast_injective _) (Fin.cast_injective _)

/-- Without nodes there is no cycle either, and the graph is refused. -/
theorem not_transferred_new :
    Acyclic ActionGraph.new.Dep ∧
      protoGraphToPlan (graphToProto .listed .new) =
        .error (.invalidResponse "action graph has no nodes") := by
  refine ⟨?_, rfl⟩
  intro a ha
  obtain ⟨b, hab, -⟩ := Relation.TransGen.head'_iff.mp ha
  exact absurd hab.mem.1 (AList.notMem_empty _)

end System

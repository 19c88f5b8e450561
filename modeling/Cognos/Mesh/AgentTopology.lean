/-
# `Cognos.Mesh.AgentTopology` — the view a mesh node has of the mesh

`agent_topology.rs`: the nodes and the edges between them, kept up to date as neighbours come
and go, and a search for the components to see whether the mesh has fallen apart.  A node does
not take itself as a neighbour, but it removes itself when told to.

    components_partition    the components are the classes of the members, largest first
    detectPartition_iff     a partition is seen exactly when there is more than one
    throughout_sound_iff    the topology is sound throughout a run exactly when the run never
                            removes the local node

A set is gone through in some order, which may be another one at each call.
-/
import Mathlib
import Cognos.Lib.Components
import Cognos.Lib.Run

namespace Mesh

open Relation

abbrev NodeId := String

/-! ## The graph -/

/-- The members, and edges as `(min, max)` pairs. -/
structure TopologyGraph where
  nodes : Finset NodeId
  edges : Finset (NodeId × NodeId)

namespace TopologyGraph

def addEdge (g : TopologyGraph) (a b : NodeId) : TopologyGraph :=
  let edge := if a ≤ b then (a, b) else (b, a)
  { nodes := insert edge.2 (insert edge.1 g.nodes), edges := insert edge g.edges }

/-- An edge joins the two. -/
def Joined (g : TopologyGraph) (a b : NodeId) : Prop := (a, b) ∈ g.edges ∨ (b, a) ∈ g.edges

/-- The two can be reached from each other. -/
def Reachable (g : TopologyGraph) : NodeId → NodeId → Prop := ReflTransGen g.Joined

/-- A reachability class of the members. -/
def IsClass (g : TopologyGraph) (c : Finset NodeId) : Prop :=
  ∃ x ∈ g.nodes, ∀ y, y ∈ c ↔ g.Reachable x y

/-- The order in which a call goes through the two sets. -/
structure Iteration (g : TopologyGraph) where
  nodes : List NodeId
  edges : List (NodeId × NodeId)
  mem_nodes : ∀ x, x ∈ nodes ↔ x ∈ g.nodes
  mem_edges : ∀ e, e ∈ edges ↔ e ∈ g.edges
  nodup_nodes : nodes.Nodup
  nodup_edges : edges.Nodup

instance (g : TopologyGraph) : Nonempty g.Iteration :=
  ⟨⟨g.nodes.toList, g.edges.toList, fun _ => Finset.mem_toList, fun _ => Finset.mem_toList,
    g.nodes.nodup_toList, g.edges.nodup_toList⟩⟩

/-- The adjacency list, entry by entry: each end of an edge is put on the other's. -/
def adjacency (edges : List (NodeId × NodeId)) : List (NodeId × NodeId) :=
  edges.flatMap fun e => [(e.1, e.2), (e.2, e.1)]

/-- The components, in the order they are found. -/
def found {g : TopologyGraph} (o : g.Iteration) : List (Finset NodeId) :=
  Digraph.components (adjacency o.edges) [] o.nodes

/-- Largest first. -/
def connectedComponents {g : TopologyGraph} (o : g.Iteration) : List (Finset NodeId) :=
  (found o).mergeSort fun a b => decide (b.card ≤ a.card)

end TopologyGraph

/-! ## The topology -/

structure Partition where
  components : List (Finset NodeId)
  detectedAt : Nat

structure AgentTopology where
  localId : NodeId
  graph : TopologyGraph
  lastSeen : AList fun _ : NodeId => Nat
  lastResult : Option Partition

inductive TopologyError
  | gossipFailed (text : String)
  | noPeers
  | partitioned (components : Nat)

namespace AgentTopology

open TopologyGraph

def new (localId : NodeId) : AgentTopology := ⟨localId, ⟨{localId}, ∅⟩, ∅, none⟩

def addNeighbor (t : AgentTopology) (node : NodeId) (now : Nat) : AgentTopology :=
  if node = t.localId then t
  else
    { t with graph := t.graph.addEdge t.localId node, lastSeen := t.lastSeen.insert node now }

def removeNeighbor (t : AgentTopology) (node : NodeId) : AgentTopology :=
  { t with
    graph :=
      { nodes := t.graph.nodes.erase node
        edges := t.graph.edges.filter fun e => e.1 ≠ node ∧ e.2 ≠ node }
    lastSeen := t.lastSeen.erase node }

def detectPartition (t : AgentTopology) (o : t.graph.Iteration) (now : Nat) : Option Partition :=
  if 1 < (connectedComponents o).length then some ⟨connectedComponents o, now⟩ else none

/-- `gossip`, which sends nothing yet. -/
def gossip (t : AgentTopology) : Except TopologyError Unit :=
  if t.graph.nodes.card ≤ 1 then .error .noPeers else .ok ()

def discover (t : AgentTopology) (o : t.graph.Iteration) (now : Nat) :
    Except TopologyError TopologyGraph × AgentTopology :=
  match t.gossip with
  | .error e => (.error e, t)
  | .ok () =>
      match t.detectPartition o now with
      | some partition => (.ok t.graph, { t with lastResult := some partition })
      | none => (.ok t.graph, t)

end AgentTopology

/-- A call, with what the clock shows and the order a set is gone through. -/
inductive TopologyAct
  | addNeighbor (node : NodeId) (now : Nat)
  | removeNeighbor (node : NodeId)
  | detectPartition
  | discover (order : ∀ g : TopologyGraph, g.Iteration) (now : Nat)

namespace AgentTopology

open TopologyGraph

def step (t : AgentTopology) : TopologyAct → AgentTopology
  | .addNeighbor node now => t.addNeighbor node now
  | .removeNeighbor node => t.removeNeighbor node
  | .detectPartition => t
  | .discover order now => (t.discover (order t.graph) now).2

end AgentTopology

/-! ## The components -/

namespace TopologyGraph

variable {g : TopologyGraph} {o : g.Iteration}

theorem mem_adjacency {edges : List (NodeId × NodeId)} {a b : NodeId} :
    Digraph.Arc (adjacency edges) a b ↔ (a, b) ∈ edges ∨ (b, a) ∈ edges := by
  rw [Digraph.Arc, adjacency, List.mem_flatMap]
  constructor
  · rintro ⟨⟨x, y⟩, he, hab⟩
    rcases List.mem_cons.mp hab with hab | hab
    · rw [hab]
      exact Or.inl he
    · have hba : (b, a) = (x, y) := by
        cases List.mem_singleton.mp hab
        rfl
      rw [hba]
      exact Or.inr he
  · rintro (he | he)
    · exact ⟨_, he, List.mem_cons_self⟩
    · exact ⟨_, he, List.mem_cons_of_mem _ List.mem_cons_self⟩

theorem bothWays_adjacency (edges : List (NodeId × NodeId)) :
    Digraph.BothWays (adjacency edges) := fun _ _ h =>
  mem_adjacency.mpr (mem_adjacency.mp h).symm

/-- The search goes along the edges of the graph. -/
theorem arc_iff_joined (o : g.Iteration) {a b : NodeId} :
    Digraph.Arc (adjacency o.edges) a b ↔ g.Joined a b := by
  rw [mem_adjacency, o.mem_edges, o.mem_edges]
  exact Iff.rfl

theorem isClass_iff (o : g.Iteration) {c : Finset NodeId} :
    g.IsClass c ↔ ∃ x ∈ o.nodes, Digraph.IsClass (adjacency o.edges) x c := by
  have hsame : Digraph.Arc (adjacency o.edges) = g.Joined := by
    funext a b
    exact propext (arc_iff_joined o)
  unfold IsClass Digraph.IsClass Reachable
  rw [hsame]
  simp only [o.mem_nodes]

theorem closed_nil (edges : List (NodeId × NodeId)) : Digraph.Closed (adjacency edges) [] :=
  fun _ h => absurd h List.not_mem_nil

theorem perm_connectedComponents (o : g.Iteration) : (connectedComponents o).Perm (found o) :=
  List.mergeSort_perm _ _

theorem mem_connectedComponents (o : g.Iteration) {c : Finset NodeId} :
    c ∈ connectedComponents o ↔ g.IsClass c := by
  rw [(perm_connectedComponents o).mem_iff, isClass_iff o]
  refine (Digraph.mem_components (bothWays_adjacency _) (closed_nil _)).trans ?_
  simp only [List.not_mem_nil, not_false_eq_true, true_and]

theorem nodup_connectedComponents (o : g.Iteration) : (connectedComponents o).Nodup :=
  (perm_connectedComponents o).nodup_iff.mpr
    (Digraph.nodup_components (bothWays_adjacency _) (closed_nil _))

theorem largestFirst_connectedComponents (o : g.Iteration) :
    (connectedComponents o).Pairwise fun a b => b.card ≤ a.card := by
  have htrans : ∀ a b c : Finset NodeId, decide (b.card ≤ a.card) = true →
      decide (c.card ≤ b.card) = true → decide (c.card ≤ a.card) = true := by
    intro a b c hab hbc
    rw [decide_eq_true_eq] at hab hbc ⊢
    exact hbc.trans hab
  have htotal : ∀ a b : Finset NodeId,
      (decide (b.card ≤ a.card) || decide (a.card ≤ b.card)) = true := by
    intro a b
    rw [Bool.or_eq_true, decide_eq_true_eq, decide_eq_true_eq]
    exact le_total _ _
  exact (List.pairwise_mergeSort htrans htotal (found o)).imp fun h => of_decide_eq_true h

/-! ## What holds of the graph -/

/-- Each edge joins two members, and is there one way round only. -/
structure Formed (g : TopologyGraph) : Prop where
  ends : ∀ e ∈ g.edges, e.1 ∈ g.nodes ∧ e.2 ∈ g.nodes
  normal : ∀ e ∈ g.edges, e.1 ≤ e.2

/-- The list has the reachability classes of the members, each once and the largest first, and
each member is in exactly one. -/
structure IsPartition (g : TopologyGraph) (cs : List (Finset NodeId)) : Prop where
  nodup : cs.Nodup
  classes : ∀ c, c ∈ cs ↔ g.IsClass c
  members : ∀ c ∈ cs, c ⊆ g.nodes
  covers : ∀ x ∈ g.nodes, ∃ c ∈ cs, x ∈ c ∧ ∀ d ∈ cs, x ∈ d → d = c
  largestFirst : cs.Pairwise fun a b => b.card ≤ a.card

/-- There is more than one class. -/
def Parted (g : TopologyGraph) : Prop := ∃ c d, g.IsClass c ∧ g.IsClass d ∧ c ≠ d

/-- An edge is not there the other way round as well. -/
theorem Formed.once (h : g.Formed) {a b : NodeId} (hab : (a, b) ∈ g.edges)
    (hba : (b, a) ∈ g.edges) : a = b :=
  le_antisymm (h.normal _ hab) (h.normal _ hba)

theorem Formed.mem_of_reachable (h : g.Formed) {a b : NodeId} (ha : a ∈ g.nodes)
    (hab : g.Reachable a b) : b ∈ g.nodes := by
  induction hab with
  | refl => exact ha
  | tail _ hjoined _ =>
      rcases hjoined with he | he
      · exact (h.ends _ he).2
      · exact (h.ends _ he).1

theorem reachable_symm {a b : NodeId} (h : g.Reachable a b) : g.Reachable b a := by
  induction h with
  | refl => exact .refl
  | tail _ hjoined ih => exact .head hjoined.symm ih

theorem Formed.components_partition (h : g.Formed) (o : g.Iteration) :
    g.IsPartition (connectedComponents o) where
  nodup := nodup_connectedComponents o
  classes c := mem_connectedComponents o
  members := by
    intro c hc y hy
    obtain ⟨x, hx, hclass⟩ := (mem_connectedComponents o).mp hc
    exact h.mem_of_reachable hx ((hclass y).mp hy)
  covers := by
    intro x hx
    -- The class of `x` is the set of the members that can be reached from it.
    classical
    have hclass : ∀ y, y ∈ g.nodes.filter (g.Reachable x) ↔ g.Reachable x y := by
      intro y
      rw [Finset.mem_filter]
      exact and_iff_right_of_imp (h.mem_of_reachable hx)
    refine ⟨_, (mem_connectedComponents o).mpr ⟨x, hx, hclass⟩, (hclass x).mpr .refl, ?_⟩
    intro d hd hxd
    obtain ⟨z, -, hz⟩ := (mem_connectedComponents o).mp hd
    have hzx : g.Reachable z x := (hz x).mp hxd
    ext y
    rw [hz y, hclass y]
    exact ⟨fun hy => (reachable_symm hzx).trans hy, fun hy => hzx.trans hy⟩
  largestFirst := largestFirst_connectedComponents o

theorem parted_iff (o : g.Iteration) : 1 < (connectedComponents o).length ↔ g.Parted := by
  rw [← List.toFinset_card_of_nodup (nodup_connectedComponents o), Finset.one_lt_card, Parted]
  constructor
  · rintro ⟨c, hc, d, hd, hne⟩
    rw [List.mem_toFinset, mem_connectedComponents] at hc hd
    exact ⟨c, d, hc, hd, hne⟩
  · rintro ⟨c, d, hc, hd, hne⟩
    refine ⟨c, ?_, d, ?_, hne⟩
    · rw [List.mem_toFinset, mem_connectedComponents]
      exact hc
    · rw [List.mem_toFinset, mem_connectedComponents]
      exact hd

theorem Formed.addEdge (h : g.Formed) (a b : NodeId) : (g.addEdge a b).Formed where
  ends := by
    intro e he
    rcases Finset.mem_insert.mp he with rfl | he
    · exact ⟨Finset.mem_insert_of_mem (Finset.mem_insert_self _ _), Finset.mem_insert_self _ _⟩
    · obtain ⟨h1, h2⟩ := h.ends e he
      exact ⟨Finset.mem_insert_of_mem (Finset.mem_insert_of_mem h1),
        Finset.mem_insert_of_mem (Finset.mem_insert_of_mem h2)⟩
  normal := by
    intro e he
    rcases Finset.mem_insert.mp he with rfl | he
    · split
      · next hab => exact hab
      · next hab => exact le_of_not_ge hab
    · exact h.normal e he

end TopologyGraph

/-! ## Runs -/

namespace AgentTopology

open TopologyGraph

/-- The local node is a member, and the graph is in form and read off right. -/
structure Sound (t : AgentTopology) : Prop extends t.graph.Formed where
  member : t.localId ∈ t.graph.nodes
  components : ∀ o : t.graph.Iteration, t.graph.IsPartition (connectedComponents o)
  detects : ∀ (o : t.graph.Iteration) (now : Nat),
    (t.detectPartition o now).isSome = true ↔ t.graph.Parted

theorem detectPartition_iff (t : AgentTopology) (o : t.graph.Iteration) (now : Nat) :
    (t.detectPartition o now).isSome = true ↔ t.graph.Parted := by
  rw [← parted_iff o, detectPartition]
  split
  · next h => exact iff_of_true rfl h
  · next h => exact iff_of_false Bool.false_ne_true h

theorem sound_of_formed {t : AgentTopology} (h : t.graph.Formed)
    (hlocal : t.localId ∈ t.graph.nodes) : t.Sound :=
  ⟨h, hlocal, fun o => h.components_partition o, t.detectPartition_iff⟩

theorem sound_new (localId : NodeId) : (new localId).Sound := by
  refine sound_of_formed ⟨fun e he => ?_, fun e he => ?_⟩ (Finset.mem_singleton_self localId)
  · exact absurd he (Finset.notMem_empty e)
  · exact absurd he (Finset.notMem_empty e)

theorem formed_removeNeighbor {t : AgentTopology} (h : t.graph.Formed) (node : NodeId) :
    (t.removeNeighbor node).graph.Formed where
  ends := by
    intro e he
    obtain ⟨he, h1, h2⟩ := Finset.mem_filter.mp he
    obtain ⟨hmem1, hmem2⟩ := h.ends e he
    exact ⟨Finset.mem_erase.mpr ⟨h1, hmem1⟩, Finset.mem_erase.mpr ⟨h2, hmem2⟩⟩
  normal := fun e he => h.normal e (Finset.mem_filter.mp he).1

theorem graph_discover (t : AgentTopology) (o : t.graph.Iteration) (now : Nat) :
    (t.discover o now).2.graph = t.graph ∧ (t.discover o now).2.localId = t.localId := by
  unfold discover
  cases t.gossip with
  | error e => exact ⟨rfl, rfl⟩
  | ok _ =>
      cases t.detectPartition o now with
      | none => exact ⟨rfl, rfl⟩
      | some partition => exact ⟨rfl, rfl⟩

theorem localId_step (t : AgentTopology) (a : TopologyAct) : (t.step a).localId = t.localId := by
  cases a with
  | addNeighbor node now =>
      show (t.addNeighbor node now).localId = _
      unfold addNeighbor
      split <;> rfl
  | removeNeighbor node => rfl
  | detectPartition => rfl
  | discover order now => exact (t.graph_discover _ now).2

/-- A call keeps the topology sound exactly when it is not the removal of the local node. -/
theorem Sound.step_iff {t : AgentTopology} (h : t.Sound) (a : TopologyAct) :
    (t.step a).Sound ↔ a ≠ .removeNeighbor t.localId := by
  cases a with
  | addNeighbor node now =>
      refine iff_of_true ?_ (by intro h; cases h)
      show (t.addNeighbor node now).Sound
      unfold addNeighbor
      split
      · exact h
      · refine sound_of_formed (h.toFormed.addEdge _ _) ?_
        exact Finset.mem_insert_of_mem (Finset.mem_insert_of_mem h.member)
  | removeNeighbor node =>
      constructor
      · rintro hsound hsame
        cases hsame
        exact absurd hsound.member (Finset.notMem_erase _ _)
      · intro hother
        refine sound_of_formed (formed_removeNeighbor h.toFormed node) ?_
        refine Finset.mem_erase.mpr ⟨fun hsame => hother ?_, h.member⟩
        exact congrArg _ hsame.symm
  | detectPartition => exact iff_of_true h (by intro h; cases h)
  | discover order now =>
      refine iff_of_true ?_ (by intro h; cases h)
      obtain ⟨hgraph, hlocal⟩ := t.graph_discover (order t.graph) now
      have hnext : t.step (.discover order now) = (t.discover (order t.graph) now).2 := rfl
      rw [hnext]
      refine sound_of_formed ?_ ?_
      · rw [hgraph]
        exact h.toFormed
      · rw [hgraph, hlocal]
        exact h.member

/-- The topology is sound all along a run exactly when no call removes the local node. -/
theorem throughout_sound_iff (localId : NodeId) (acts : List TopologyAct) :
    Run.Throughout step Sound (new localId) acts ↔ ∀ a ∈ acts, a ≠ .removeNeighbor localId := by
  rw [← Run.along_iff_forall step]
  refine Run.throughout_iff_along step (I := fun t => t.Sound ∧ t.localId = localId)
    (fun _ h => h.1) ?_ ?_ ⟨sound_new localId, rfl⟩
  · intro t a h
    rw [h.1.step_iff a, h.2]
  · intro t a h hkeeps
    refine ⟨(h.1.step_iff a).mpr ?_, (t.localId_step a).trans h.2⟩
    rw [h.2]
    exact hkeeps

/-- A node that removes itself is no member any more. -/
theorem not_sound_removed :
    ¬ ∀ (localId : NodeId) (acts : List TopologyAct),
      Run.Throughout step Sound (new localId) acts := by
  intro h
  have hafter := h "node" [.removeNeighbor "node"] _ List.prefix_rfl
  exact absurd hafter.member (Finset.notMem_erase _ _)

end AgentTopology

end Mesh

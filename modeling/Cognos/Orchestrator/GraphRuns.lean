/-
# `Cognos.Orchestrator.GraphRuns` — graphs that calls have built

A caller builds a graph with `add_task` and `add_dependency` (`GraphCall`), and asks for its
order with `topological`, which is Kahn's sort on counters kept in a hash map.

    Valid            what every call keeps: edges join nodes, each is there once, no cycle
    inDegree_eq      the counters are those of `Lib/Kahn`
    topoLoop_eq      and so the loop is the one there
    topological_ok   a valid graph has an order, whatever the hash map's walk
    built            all of it, after any calls on an empty graph
-/
import Mathlib
import Cognos.Lib.Kahn
import Cognos.Lib.Run
import Cognos.Orchestrator.Effects

namespace Orchestrator

namespace TaskGraph

open Relation
open Digraph (Acyclic)

/-! ## Kahn's sort -/

/-- `in_degree`: how many edges still lead to each node. -/
abbrev Counters := AList fun _ : TaskId => Nat

/-- `*in_degree.entry(id).or_insert(0) += 1`. -/
def Counters.bump (c : Counters) (id : TaskId) : Counters :=
  c.insert id ((c.lookup id).getD 0 + 1)

def inDegree (g : TaskGraph) : Counters :=
  (g.edges.map (·.dst)).foldl Counters.bump
    (g.nodes.keys.foldl (fun c id => c.insert id 0) (∅ : Counters))

/-- One edge of a visited node, by its end: the counter goes down, and at zero the end is
queued. -/
def relaxEdge (st : Counters × List TaskId) (id : TaskId) : Counters × List TaskId :=
  match st.1.lookup id with
  | some d => (st.1.insert id (d - 1), if d - 1 = 0 then st.2 ++ [id] else st.2)
  | none => st

/-- The ends of the edges from a node. -/
def outs (edges : List Edge) (id : TaskId) : List TaskId :=
  (edges.filter (·.src = id)).map (·.dst)

/-- The nodes visited, in order, and the counters left. -/
def topoLoop (edges : List Edge) : Nat → Counters → List TaskId → List TaskId × Counters
  | 0, counters, _ => ([], counters)
  | _ + 1, counters, [] => ([], counters)
  | rounds + 1, counters, id :: queue =>
      let st := (outs edges id).foldl relaxEdge (counters, queue)
      let rest := topoLoop edges rounds st.1 st.2
      (id :: rest.1, rest.2)

/-- The nodes, each behind those it depends on.  A node is queued when its counter comes to
zero, which happens once, so the loop has a round for each counter and one to find the queue
empty. -/
def topological (g : TaskGraph) (walk : HashOrder TaskId) : Except GraphError (List TaskId) :=
  let counters := g.inDegree
  let queue := (walk.1 counters.keys).filter fun id => counters.lookup id = some 0
  let (order, left) := topoLoop g.edges (counters.keys.length + 1) counters queue
  if order.length = g.nodes.keys.length then .ok order
  else
    .error (.cycleDetected (order.getLast?.getD ⟨Uuid.nil⟩)
      (((walk.1 left.keys).find? fun id => 0 < (left.lookup id).getD 0).getD ⟨Uuid.nil⟩))

/-! ## The counters -/

theorem lookup_zeros (ids : List TaskId) (c : Counters) (id : TaskId) :
    (ids.foldl (fun c id => c.insert id 0) c).lookup id =
      if id ∈ ids then some 0 else c.lookup id := by
  induction ids generalizing c with
  | nil => rfl
  | cons i ids ih =>
      rw [List.foldl_cons, ih]
      rcases eq_or_ne id i with rfl | hne
      · rw [AList.lookup_insert, if_pos List.mem_cons_self, ite_self]
      · rw [AList.lookup_insert_ne hne]
        simp only [List.mem_cons, hne, false_or]

theorem lookup_bumps (ids : List TaskId) (c : Counters) {id : TaskId} {n : Nat}
    (h : c.lookup id = some n) :
    (ids.foldl Counters.bump c).lookup id = some (n + ids.count id) := by
  induction ids generalizing c n with
  | nil => exact h
  | cons i ids ih =>
      rw [List.foldl_cons]
      rcases eq_or_ne id i with rfl | hne
      · have hbump : (c.bump id).lookup id = some (n + 1) := by
          rw [Counters.bump, AList.lookup_insert, h, Option.getD_some]
        rw [ih _ hbump, List.count_cons_self]
        congr 1
        omega
      · have hbump : (c.bump i).lookup id = some n := by
          rw [Counters.bump, AList.lookup_insert_ne hne, h]
        rw [ih _ hbump, List.count_cons_of_ne hne.symm]

theorem lookup_inDegree {g : TaskGraph} {id : TaskId} (h : id ∈ g.nodes.keys) :
    g.inDegree.lookup id = some ((g.edges.map (·.dst)).count id) := by
  have hzero : (g.nodes.keys.foldl (fun c id => c.insert id 0) (∅ : Counters)).lookup id =
      some 0 := by
    rw [lookup_zeros, if_pos h]
  rw [inDegree, lookup_bumps _ _ hzero, Nat.zero_add]

theorem mem_inDegree {g : TaskGraph} {id : TaskId} :
    id ∈ g.inDegree ↔ id ∈ g.nodes.keys ∨ id ∈ g.edges.map (·.dst) := by
  have hzeros : ∀ (ids : List TaskId) (c : Counters),
      id ∈ ids.foldl (fun c i => c.insert i 0) c ↔ id ∈ ids ∨ id ∈ c := by
    intro ids
    induction ids with
    | nil => simp
    | cons i ids ih =>
        intro c
        rw [List.foldl_cons, ih, AList.mem_insert, List.mem_cons, or_left_comm, or_assoc]
  have hbumps : ∀ (ids : List TaskId) (c : Counters),
      id ∈ ids.foldl Counters.bump c ↔ id ∈ ids ∨ id ∈ c := by
    intro ids
    induction ids with
    | nil => simp
    | cons i ids ih =>
        intro c
        rw [List.foldl_cons, ih, Counters.bump, AList.mem_insert, List.mem_cons, or_left_comm,
          or_assoc]
  rw [inDegree, hbumps, hzeros, or_comm]
  simp

/-- Edges counted from node to node are the edges counted. -/
theorem indegree_eq {nodes : List TaskId} (hnodup : nodes.Nodup) {edges : List Edge}
    (hsrc : ∀ e ∈ edges, e.src ∈ nodes) (id : TaskId) :
    Kahn.indegree nodes (outs edges) id = (edges.map (·.dst)).count id := by
  induction edges with
  | nil =>
      rw [Kahn.indegree, List.map_nil, List.count_nil, List.sum_eq_zero]
      intro n hn
      obtain ⟨a, -, rfl⟩ := List.mem_map.mp hn
      rfl
  | cons e edges ih =>
      obtain ⟨he, hrest⟩ := List.forall_mem_cons.mp hsrc
      have hone : ∀ a, (outs (e :: edges) a).count id =
          (if a = e.src then [e.dst].count id else 0) + (outs edges a).count id := by
        intro a
        rw [outs, outs, List.filter_cons]
        by_cases ha : e.src = a
        · simp only [ha, decide_true, if_true, List.map_cons, List.count_cons, List.count_nil]
          omega
        · simp only [ha, decide_false, Bool.false_eq_true, if_false, Ne.symm ha, Nat.zero_add]
      have hsum : ∀ k, (nodes.map fun a => if a = e.src then k else 0).sum = k := by
        intro k
        rw [← List.sum_toFinset _ hnodup, Finset.sum_ite_eq', if_pos (List.mem_toFinset.mpr he)]
      have ih := ih hrest
      rw [Kahn.indegree] at ih ⊢
      simp only [hone, List.sum_map_add, hsum, ih, List.map_cons, List.count_cons, List.count_nil]
      omega

/-! ## The loop -/

/-- The counters of the nodes are these. -/
def Counts (nodes : List TaskId) (counters : Counters) (counter : TaskId → Nat) : Prop :=
  ∀ id ∈ nodes, counters.lookup id = some (counter id)

section Loop

variable {nodes : List TaskId} {counters : Counters} {counter : TaskId → Nat}

theorem relaxEdges_eq {ids : List TaskId} (hids : ∀ id ∈ ids, id ∈ nodes)
    (h : Counts nodes counters counter) (queue free : List TaskId) :
    Counts nodes (ids.foldl relaxEdge (counters, queue ++ free)).1
        (ids.foldl Kahn.relax (counter, free)).1 ∧
      (ids.foldl relaxEdge (counters, queue ++ free)).2 =
        queue ++ (ids.foldl Kahn.relax (counter, free)).2 := by
  induction ids generalizing counters counter free with
  | nil => exact ⟨h, rfl⟩
  | cons i ids ih =>
      obtain ⟨hi, hrest⟩ := List.forall_mem_cons.mp hids
      have hnext : Counts nodes (counters.insert i (counter i - 1))
          (Function.update counter i (counter i - 1)) := by
        intro id hid
        rcases eq_or_ne id i with rfl | hne
        · rw [AList.lookup_insert, Function.update_self]
        · rw [AList.lookup_insert_ne hne, Function.update_of_ne hne, h id hid]
      have hstep : relaxEdge (counters, queue ++ free) i =
          (counters.insert i (counter i - 1),
            queue ++ if counter i - 1 = 0 then free ++ [i] else free) := by
        rw [relaxEdge, h i hi]
        split_ifs with hzero
        · simp only [hzero, if_true, List.append_assoc]
        · simp only [hzero, if_false]
      rw [List.foldl_cons, List.foldl_cons, hstep]
      exact ih hrest hnext _

theorem topoLoop_eq {edges : List Edge} (hdst : ∀ e ∈ edges, e.dst ∈ nodes)
    (h : Counts nodes counters counter) (rounds : Nat) (queue : List TaskId) :
    (topoLoop edges rounds counters queue).1 =
      Kahn.loop (outs edges) id rounds counter queue := by
  induction rounds generalizing counters counter queue with
  | zero => rfl
  | succ rounds ih =>
      cases queue with
      | nil => rfl
      | cons a queue =>
          have houts : ∀ b ∈ outs edges a, b ∈ nodes := by
            intro b hb
            obtain ⟨e, he, rfl⟩ := List.mem_map.mp hb
            exact hdst e (List.mem_filter.mp he).1
          obtain ⟨hcounts, hqueue⟩ := relaxEdges_eq houts h queue []
          rw [List.append_nil] at hcounts hqueue
          show a :: (topoLoop edges rounds _ _).1 = a :: Kahn.loop _ _ _ _ _
          rw [ih hcounts, hqueue]
          rfl

end Loop

/-! ## Valid graphs -/

/-- A well-formed graph with each edge once. -/
structure Valid (g : TaskGraph) : Prop extends Wf g where
  once : g.edges.Nodup

theorem valid_new : Valid new := ⟨wf_new, .nil⟩

theorem Wf.joined_keys {g : TaskGraph} (hg : g.Wf) {e : Edge} (he : e ∈ g.edges) :
    e.src ∈ g.nodes.keys ∧ e.dst ∈ g.nodes.keys := by
  obtain ⟨hsrc, hdst⟩ := hg.joined _ _ (dep_of_mem he)
  exact ⟨mem_keys_iff.mpr hsrc, mem_keys_iff.mpr hdst⟩

theorem Valid.addTask {g : TaskGraph} (hg : g.Valid) (fresh : Uuid) (node : TaskNode) :
    (g.addTask fresh node).1.Valid := by
  refine ⟨hg.toWf.congr rfl ?_ ?_, hg.once⟩
  · intro id n hn
    rw [get_addTask] at hn
    split_ifs at hn with hid
    · cases hn
      exact hid.symm
    · exact hg.keyed id n hn
  · intro id hid
    rw [get_addTask]
    split_ifs
    · rfl
    · exact hid

theorem not_mem_of_addDependency {g g' : TaskGraph} {src dst : TaskId} {kind : EdgeKind}
    (h : g.addDependency src dst kind = .ok g') : ⟨src, dst, kind⟩ ∉ g.edges := by
  unfold addDependency at h
  split_ifs at h with hsrc hdst hdup hcycle
  exact hdup

theorem Valid.addDependency {g g' : TaskGraph} (hg : g.Valid) {src dst : TaskId}
    {kind : EdgeKind} (h : g.addDependency src dst kind = .ok g') : g'.Valid := by
  refine ⟨hg.toWf.addDependency h, ?_⟩
  have hnew := not_mem_of_addDependency h
  obtain ⟨rfl, -⟩ := addDependency_ok h
  refine List.nodup_append.mpr ⟨hg.once, List.nodup_singleton _, ?_⟩
  rintro e he e' he' rfl
  rw [List.mem_singleton.mp he'] at he
  exact hnew he

/-! ## The order of a valid graph -/

/-- A valid graph's nodes are visited in an order in which every edge points forward. -/
theorem topological_ok {g : TaskGraph} (hg : g.Wf) (walk : HashOrder TaskId) :
    ∃ order, g.topological walk = .ok order ∧ order.Perm g.nodes.keys ∧
      ∀ e ∈ g.edges, order.idxOf e.src < order.idxOf e.dst := by
  have hnodup : g.nodes.keys.Nodup := g.nodes.keys_nodup
  have hsrc : ∀ e ∈ g.edges, e.src ∈ g.nodes.keys := fun e he => (hg.joined_keys he).1
  have hdst : ∀ e ∈ g.edges, e.dst ∈ g.nodes.keys := fun e he => (hg.joined_keys he).2
  have hcounts : Counts g.nodes.keys g.inDegree (Kahn.indegree g.nodes.keys (outs g.edges)) := by
    intro id hid
    rw [lookup_inDegree hid, indegree_eq hnodup hsrc]
  have hkeys : g.inDegree.keys.Perm g.nodes.keys := by
    refine (List.perm_ext_iff_of_nodup g.inDegree.keys_nodup hnodup).mpr fun id => ?_
    rw [AList.mem_keys.symm, mem_inDegree, or_iff_left_of_imp]
    intro hid
    obtain ⟨e, he, rfl⟩ := List.mem_map.mp hid
    exact hdst e he
  have hqueue : ((walk.1 g.inDegree.keys).filter fun id => g.inDegree.lookup id = some 0).Perm
      (g.nodes.keys.filter fun id => Kahn.indegree g.nodes.keys (outs g.edges) id = 0) := by
    refine (((walk.2 _).trans hkeys).filter _).trans (.of_eq (List.filter_congr ?_))
    intro id hid
    rw [decide_eq_decide, hcounts id hid, Option.some.injEq]
  have hjoined : ∀ a ∈ g.nodes.keys, ∀ b ∈ outs g.edges a, b ∈ g.nodes.keys := by
    intro a _ b hb
    obtain ⟨e, he, rfl⟩ := List.mem_map.mp hb
    exact hdst e (List.mem_filter.mp he).1
  have hrounds : g.nodes.keys.length ≤ g.inDegree.keys.length + 1 := by
    rw [hkeys.length_eq]
    exact Nat.le_succ _
  have hsorts := Kahn.sorts_loop hnodup hjoined (fun l => List.Perm.refl (id l)) hqueue hrounds
  rw [← topoLoop_eq hdst hcounts] at hsorts
  have harc : ∀ a b, Kahn.Arc g.nodes.keys (outs g.edges) a b ↔ g.Dep a b := by
    intro a b
    rw [dep_iff]
    constructor
    · rintro ⟨-, hb⟩
      obtain ⟨e, he, rfl⟩ := List.mem_map.mp hb
      obtain ⟨he, hsrc⟩ := List.mem_filter.mp he
      exact ⟨e, he, of_decide_eq_true hsrc, rfl⟩
    · rintro ⟨e, he, rfl, rfl⟩
      exact ⟨hsrc e he, List.mem_map.mpr ⟨e, List.mem_filter.mpr ⟨he, decide_eq_true rfl⟩, rfl⟩⟩
  have hlength := (Kahn.length_eq_iff hnodup hjoined hsorts).mpr
    (hg.acyclic.mono fun a b => (harc a b).mp)
  refine ⟨_, if_pos hlength, hsorts.perm hlength, ?_⟩
  intro e he
  have hmem := (hsorts.perm hlength).mem_iff.mpr (hdst e he)
  exact (Kahn.idxOf_lt hsorts hmem ((harc _ _).mpr (dep_of_mem he))).2

/-! ## Calls -/

/-- A call that builds a graph; the id that is minted for a nil one comes from outside. -/
inductive GraphCall
  | addTask (fresh : Uuid) (node : TaskNode)
  | addDependency (src dst : TaskId) (kind : EdgeKind)

/-- The graph behind a call; `add_dependency` returns its errors before it pushes the edge. -/
def call (g : TaskGraph) : GraphCall → TaskGraph
  | .addTask fresh node => (g.addTask fresh node).1
  | .addDependency src dst kind =>
      match g.addDependency src dst kind with
      | .ok g' => g'
      | .error _ => g

theorem call_of_error {g : TaskGraph} {src dst : TaskId} {kind : EdgeKind} {e : GraphError}
    (h : g.addDependency src dst kind = .error e) : g.call (.addDependency src dst kind) = g := by
  rw [call, h]

theorem Valid.call {g : TaskGraph} (hg : g.Valid) (c : GraphCall) : (g.call c).Valid := by
  cases c with
  | addTask fresh node => exact hg.addTask fresh node
  | addDependency src dst kind =>
      cases h : g.addDependency src dst kind with
      | error e =>
          rw [call_of_error h]
          exact hg
      | ok g' =>
          rw [TaskGraph.call, h]
          exact hg.addDependency h

/-- Whatever is called on an empty graph leaves a valid one. -/
theorem valid_calls (calls : List GraphCall) : (Run.after call new calls).Valid :=
  Run.invariant_of_step call (fun _ c hg => hg.call c) valid_new calls

/-! ## What is refused as a cycle -/

/-- The graph with one edge more. -/
def withEdge (g : TaskGraph) (src dst : TaskId) (kind : EdgeKind) : TaskGraph :=
  { g with edges := g.edges ++ [⟨src, dst, kind⟩] }

theorem cycle_iff {g : TaskGraph} (hg : g.Wf) (src dst : TaskId) (kind : EdgeKind) :
    ¬ Acyclic (g.withEdge src dst kind).Dep ↔ ReflTransGen g.Dep dst src := by
  have hdep : (g.withEdge src dst kind).Dep = fun a b => g.Dep a b ∨ (a = src ∧ b = dst) := by
    funext a b
    exact propext (dep_append a b)
  rw [hdep, Digraph.acyclic_insert hg.acyclic, not_not]

/-- Between nodes of the graph, an edge is refused as a cycle exactly when it closes one: one
that is there already does not. -/
theorem cycleDetected_iff {g : TaskGraph} (hg : g.Wf) (src dst : TaskId) (kind : EdgeKind) :
    g.addDependency src dst kind = .error (.cycleDetected src dst) ↔
      (g.get src).isSome ∧ (g.get dst).isSome ∧ ¬ Acyclic (g.withEdge src dst kind).Dep := by
  rw [cycle_iff hg, ← reachable_iff]
  unfold addDependency
  split_ifs with hsrc hdst hdup hcycle
  · refine iff_of_false nofun fun h => ?_
    rw [Option.isNone_iff_eq_none.mp hsrc] at h
    cases h.1
  · refine iff_of_false nofun fun h => ?_
    rw [Option.isNone_iff_eq_none.mp hdst] at h
    cases h.2.1
  · refine iff_of_false nofun fun h => ?_
    exact hg.acyclic src (.head' (dep_of_mem hdup) (reachable_iff.mp h.2.2))
  · refine iff_of_true rfl ⟨?_, ?_, hcycle⟩
    · exact Option.isSome_iff_ne_none.mpr fun h => hsrc (Option.isNone_iff_eq_none.mpr h)
    · exact Option.isSome_iff_ne_none.mpr fun h => hdst (Option.isNone_iff_eq_none.mpr h)
  · exact iff_of_false nofun fun h => hcycle h.2.2

/-! ## What calls build -/

/-- After any calls on an empty graph: edges join nodes, each is there once, and there is no
cycle; what is refused changes nothing; an edge between nodes is refused as a cycle exactly when
it closes one; and there is an order of all nodes in which every edge points forward. -/
theorem built (calls : List GraphCall) (walk : HashOrder TaskId) :
    let g := Run.after call new calls
    ((∀ e ∈ g.edges, (g.get e.src).isSome ∧ (g.get e.dst).isSome) ∧ g.edges.Nodup ∧
        Acyclic g.Dep) ∧
      (∀ src dst kind e, g.addDependency src dst kind = .error e →
        g.call (.addDependency src dst kind) = g) ∧
      (∀ src dst kind, g.addDependency src dst kind = .error (.cycleDetected src dst) ↔
        (g.get src).isSome ∧ (g.get dst).isSome ∧ ¬ Acyclic (g.withEdge src dst kind).Dep) ∧
      ∃ order, g.topological walk = .ok order ∧ order.Perm g.nodes.keys ∧
        ∀ e ∈ g.edges, order.idxOf e.src < order.idxOf e.dst := by
  intro g
  have hg : g.Valid := valid_calls calls
  refine ⟨⟨?_, hg.once, hg.acyclic⟩, ?_, cycleDetected_iff hg.toWf, topological_ok hg.toWf walk⟩
  · intro e he
    exact hg.joined _ _ (dep_of_mem he)
  · intro src dst kind e h
    exact call_of_error h

/-- An edge from a missing node to itself closes a cycle, and what is reported is the node. -/
theorem not_reported_missing : ¬ ∀ (calls : List GraphCall) (src dst : TaskId) (kind : EdgeKind),
    (Run.after call new calls).addDependency src dst kind = .error (.cycleDetected src dst) ↔
      ¬ Acyclic ((Run.after call new calls).withEdge src dst kind).Dep := by
  intro h
  have hcycle := (h [] ⟨Uuid.nil⟩ ⟨Uuid.nil⟩ .control).mpr
    ((cycle_iff wf_new _ _ _).mpr .refl)
  cases hcycle

end TaskGraph

end Orchestrator

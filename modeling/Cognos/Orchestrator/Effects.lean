/-
# `Cognos.Orchestrator.Effects` — what each operation does to graph and queue

One lemma per operation of `runtime.rs`, so that nothing behind this module unfolds one.

    dispatch_node               `DispatchCase`: one node marked, or nothing
    submit                      `SubmitCase`: nodes and edges of the plan, then `Puts`
    mark_completed, complete    `Marks`, one node less in flight
    enqueue_ready_dependents    `Puts`
    next                        an entry less (`next_eq_some`), unless there is none

`Puts` is what the two ways into the queue have in common: pending nodes, each once, get
ready and an entry, and nothing else changes.
-/
import Mathlib
import Cognos.Lib.Digraph
import Cognos.Orchestrator.DispatchSafety

namespace Orchestrator

open Relation

variable {Time : Type}

namespace TaskGraph

/-! ## Edges as arcs -/

/-- The two ends of each edge. -/
def arcs (g : TaskGraph) : List (TaskId × TaskId) := g.edges.map fun e => (e.src, e.dst)

/-- There is an edge from `a` to `b`: `b` depends on `a`. -/
def Dep (g : TaskGraph) : TaskId → TaskId → Prop := Digraph.Arc g.arcs

theorem dep_iff {g : TaskGraph} {a b : TaskId} :
    g.Dep a b ↔ ∃ e ∈ g.edges, e.src = a ∧ e.dst = b := by
  simp [Dep, Digraph.Arc, arcs]

theorem dep_of_mem {g : TaskGraph} {e : Edge} (h : e ∈ g.edges) : g.Dep e.src e.dst :=
  dep_iff.mpr ⟨e, h, rfl, rfl⟩

theorem next_arcs (edges : List Edge) (a : TaskId) :
    Digraph.next (edges.map fun e => (e.src, e.dst)) a =
      (edges.filter (·.src = a)).map (·.dst) := by
  simp [Digraph.next, List.filter_map, Function.comp_def]

theorem search_eq (edges : List Edge) (dst : TaskId) (rounds : Nat) (visited stack : List TaskId) :
    search edges dst rounds visited stack =
      Digraph.search (edges.map fun e => (e.src, e.dst)) dst rounds visited stack := by
  induction rounds generalizing visited stack with
  | zero => rfl
  | succ rounds ih =>
      cases stack with
      | nil => rfl
      | cons cur stack =>
          rw [search, Digraph.search, ih, next_arcs]
          simp only [ih]

/-- The cycle check finds every way back. -/
theorem reachable_iff {g : TaskGraph} {src dst : TaskId} :
    g.reachable src dst = true ↔ ReflTransGen g.Dep src dst := by
  have hrounds : g.arcs.length + 1 < g.edges.length + 2 := by
    rw [arcs, List.length_map]
    exact Nat.lt_succ_self _
  have hsearch : Digraph.search g.arcs dst (g.edges.length + 2) [] [src] = true ↔ _ :=
    Digraph.search_iff hrounds
  rw [reachable, Bool.or_eq_true, decide_eq_true_eq, search_eq,
    show g.edges.map (fun e => (e.src, e.dst)) = g.arcs from rfl, hsearch,
    reflTransGen_iff_eq_or_transGen]
  exact or_congr eq_comm Iff.rfl

/-! ## Well-formed graphs -/

/-- Nodes are found under their ids, edges join nodes, and there is no cycle. -/
structure Wf (g : TaskGraph) : Prop where
  keyed : ∀ id node, g.get id = some node → node.id = id
  joined : ∀ a b, g.Dep a b → (g.get a).isSome ∧ (g.get b).isSome
  acyclic : Digraph.Acyclic g.Dep

theorem wf_new : Wf new where
  keyed id node h := by cases h
  joined a b h := by cases dep_iff.mp h with | intro e he => cases he.1
  acyclic a h := by
    obtain ⟨b, hb, -⟩ := TransGen.head'_iff.mp h
    cases dep_iff.mp hb with | intro e he => cases he.1

/-- What an accepted edge adds. -/
theorem addDependency_ok {g g' : TaskGraph} {src dst : TaskId} {kind : EdgeKind}
    (h : g.addDependency src dst kind = .ok g') :
    g' = { g with edges := g.edges ++ [⟨src, dst, kind⟩] } ∧ (g.get src).isSome ∧
      (g.get dst).isSome ∧ ¬ ReflTransGen g.Dep dst src := by
  unfold addDependency at h
  split_ifs at h with hsrc hdst hdup hcycle
  cases h
  exact ⟨rfl, Option.isSome_iff_ne_none.mpr fun h => hsrc (by rw [h]; rfl),
    Option.isSome_iff_ne_none.mpr fun h => hdst (by rw [h]; rfl),
    fun hback => hcycle (reachable_iff.mpr hback)⟩

theorem dep_append {g : TaskGraph} {src dst : TaskId} {kind : EdgeKind} (a b : TaskId) :
    Dep { g with edges := g.edges ++ [⟨src, dst, kind⟩] } a b ↔
      g.Dep a b ∨ (a = src ∧ b = dst) := by
  rw [dep_iff, dep_iff]
  constructor
  · rintro ⟨e, he, rfl, rfl⟩
    rcases List.mem_append.mp he with he | he
    · exact Or.inl ⟨e, he, rfl, rfl⟩
    · rw [List.mem_singleton] at he
      subst he
      exact Or.inr ⟨rfl, rfl⟩
  · rintro (⟨e, he, rfl, rfl⟩ | ⟨rfl, rfl⟩)
    · exact ⟨e, List.mem_append_left _ he, rfl, rfl⟩
    · exact ⟨_, List.mem_append_right _ (List.mem_singleton_self _), rfl, rfl⟩

/-- An accepted edge leaves the graph well formed. -/
theorem Wf.addDependency {g g' : TaskGraph} {src dst : TaskId} {kind : EdgeKind} (hg : g.Wf)
    (h : g.addDependency src dst kind = .ok g') : g'.Wf := by
  obtain ⟨rfl, hsrc, hdst, hback⟩ := addDependency_ok h
  refine ⟨hg.keyed, ?_, ?_⟩
  · intro a b hab
    rcases (dep_append a b).mp hab with hab | ⟨rfl, rfl⟩
    · exact hg.joined a b hab
    · exact ⟨hsrc, hdst⟩
  · exact ((Digraph.acyclic_insert hg.acyclic).mpr hback).mono fun a b => (dep_append a b).mp

/-- A graph with the same edges whose nodes are there under the same ids. -/
theorem Wf.congr {g g' : TaskGraph} (hg : g.Wf) (hedges : g'.edges = g.edges)
    (hkeyed : ∀ id node, g'.get id = some node → node.id = id)
    (hget : ∀ id, (g.get id).isSome → (g'.get id).isSome) : g'.Wf := by
  have hdep : g'.Dep = g.Dep := by
    unfold Dep arcs
    rw [hedges]
  refine ⟨hkeyed, ?_, hdep ▸ hg.acyclic⟩
  intro a b hab
  rw [hdep] at hab
  obtain ⟨ha, hb⟩ := hg.joined a b hab
  exact ⟨hget a ha, hget b hb⟩

/-- At most the states of nodes differ. -/
def Relabels (g g' : TaskGraph) : Prop :=
  ∀ id, g'.get id = g.get id ∨ ∃ s, g'.get id = (g.get id).map ({ · with state := s })

theorem Relabels.isSome {g g' : TaskGraph} (h : g.Relabels g') (id : TaskId) :
    (g'.get id).isSome = (g.get id).isSome := by
  rcases h id with hsame | ⟨s, hset⟩
  · rw [hsame]
  · rw [hset, Option.isSome_map]

theorem Wf.relabel {g g' : TaskGraph} (hg : g.Wf) (hedges : g'.edges = g.edges)
    (h : g.Relabels g') : g'.Wf := by
  refine hg.congr hedges (fun id node hnode => ?_) fun id hid => (h.isSome id).trans hid
  rcases h id with hsame | ⟨s, hset⟩
  · exact hg.keyed id node (hsame ▸ hnode)
  · rw [hset] at hnode
    obtain ⟨n, hn, rfl⟩ := Option.map_eq_some_iff.mp hnode
    exact hg.keyed id n hn

/-! ## Ready tasks -/

theorem mem_keys_iff {g : TaskGraph} {id : TaskId} : id ∈ g.nodes.keys ↔ (g.get id).isSome := by
  rw [get, AList.lookup_isSome, AList.mem_keys]

theorem mem_readyTasks {g : TaskGraph} {walk : HashOrder TaskId} {id : TaskId} :
    id ∈ g.readyTasks walk ↔ ∃ node, g.get id = some node ∧ node.state = .pending ∧
      ∀ a, g.Dep a node.id → terminal ((g.get a).map (·.state)) = true := by
  rw [readyTasks, List.mem_filter, (walk.2 g.nodes.keys).mem_iff, mem_keys_iff]
  cases hnode : g.get id with
  | none => simp
  | some node =>
      simp only [Option.isSome_some, true_and, Option.any_some, Bool.and_eq_true,
        decide_eq_true_eq, List.all_eq_true, List.mem_filter, Option.some.injEq, dep_iff]
      constructor
      · rintro ⟨hpending, hall⟩
        refine ⟨node, rfl, hpending, ?_⟩
        rintro a ⟨e, he, rfl, hdst⟩
        exact hall e ⟨he, hdst⟩
      · rintro ⟨node', rfl, hpending, hall⟩
        exact ⟨hpending, fun e he => hall e.src ⟨e, he.1, rfl, he.2⟩⟩

theorem nodup_readyTasks (g : TaskGraph) (walk : HashOrder TaskId) : (g.readyTasks walk).Nodup :=
  ((walk.2 g.nodes.keys).nodup_iff.mpr g.nodes.keys_nodup).filter _

end TaskGraph

theorem dependenciesSucceeded_iff {g : TaskGraph} {child : TaskId} :
    dependenciesSucceeded g child = true ↔
      ∀ a, g.Dep a child → ∃ node, g.get a = some node ∧ node.state = .succeeded := by
  simp only [dependenciesSucceeded, List.all_eq_true, List.mem_filter, decide_eq_true_eq,
    TaskGraph.dep_iff]
  constructor
  · rintro hall a ⟨e, he, rfl, hdst⟩
    have h := hall e ⟨he, hdst⟩
    cases hnode : g.get e.src with
    | none =>
        rw [hnode] at h
        cases h
    | some node =>
        rw [hnode, Option.any_some, decide_eq_true_eq] at h
        exact ⟨node, rfl, h⟩
  · rintro hall e ⟨he, hdst⟩
    obtain ⟨node, hnode, hstate⟩ := hall e.src ⟨e, he, rfl, hdst⟩
    rw [hnode, Option.any_some, hstate]
    rfl

theorem SetsState.relabels {rt rt' : Runtime} {id : TaskId} {s : NodeState}
    (h : SetsState rt rt' id s) : rt.graph.Relabels rt'.graph := by
  intro id'
  rw [h id']
  by_cases hid : id' = id
  · rw [if_pos hid, hid]
    exact Or.inr ⟨s, rfl⟩
  · rw [if_neg hid]
    exact Or.inl rfl

/-! ## Out of the queue -/

theorem SchedEntry.le_total (a b : SchedEntry) : a.le b = true ∨ b.le a = true := by
  simp only [SchedEntry.le, Bool.or_eq_true, Bool.and_eq_true, decide_eq_true_eq]
  omega

theorem SchedEntry.le_trans {a b c : SchedEntry} (hab : a.le b = true) (hbc : b.le c = true) :
    a.le c = true := by
  simp only [SchedEntry.le, Bool.or_eq_true, Bool.and_eq_true, decide_eq_true_eq] at *
  omega

/-- A queue with entries has one that nothing is greater than. -/
theorem exists_greatest {queue : List SchedEntry} (h : queue ≠ []) :
    ∃ a ∈ queue, ∀ b ∈ queue, b.le a = true := by
  induction queue with
  | nil => exact absurd rfl h
  | cons e queue ih =>
      by_cases hrest : queue = []
      · subst hrest
        refine ⟨e, List.mem_cons_self, fun b hb => ?_⟩
        rw [List.mem_singleton] at hb
        subst hb
        exact (SchedEntry.le_total b b).elim id id
      · obtain ⟨a, ha, hmax⟩ := ih hrest
        rcases SchedEntry.le_total e a with hle | hle
        · refine ⟨a, List.mem_cons_of_mem _ ha, List.forall_mem_cons.mpr ⟨hle, hmax⟩⟩
        · have hself : e.le e = true := (SchedEntry.le_total e e).elim id id
          refine ⟨e, List.mem_cons_self, List.forall_mem_cons.mpr ⟨hself, fun b hb => ?_⟩⟩
          exact SchedEntry.le_trans (hmax b hb) hle

/-- What `next` takes is in the queue, and leaves it. -/
theorem next_eq_some {s s' : OrchestratorScheduler} {pick : Nat} {entry : SchedEntry}
    (h : s.next pick = some (entry, s')) : entry ∈ s.queue ∧ s'.queue = s.queue.erase entry := by
  unfold OrchestratorScheduler.next at h
  split at h
  · cases h
  · next e he =>
      cases h
      exact ⟨(List.mem_filter.mp (List.mem_of_getElem? he)).1, rfl⟩

/-- `next` takes nothing only when there is nothing. -/
theorem next_eq_none {s : OrchestratorScheduler} {pick : Nat} (h : s.next pick = none) :
    s.queue = [] := by
  by_contra hne
  obtain ⟨a, ha, hmax⟩ := exists_greatest hne
  have hmem : a ∈ s.greatest := by
    refine List.mem_filter.mpr ⟨ha, ?_⟩
    rw [List.all_eq_true]
    exact hmax
  have hpos : 0 < s.greatest.length := List.length_pos_of_mem hmem
  unfold OrchestratorScheduler.next at h
  split at h
  · next hget =>
      rw [List.getElem?_eq_none_iff] at hget
      exact absurd (Nat.mod_lt pick hpos) (Nat.not_lt.mpr hget)
  · cases h

/-! ## Into the queue -/

/-- Pending nodes, each once, get ready and an entry. -/
structure Puts (rt rt' : Runtime) (ids : List TaskId) : Prop where
  pending : ∀ id ∈ ids, ∃ node, rt.graph.get id = some node ∧ node.state = .pending
  nodup : ids.Nodup
  get : ∀ id, rt'.graph.get id =
    if id ∈ ids then (rt.graph.get id).map ({ · with state := .ready }) else rt.graph.get id
  edges : rt'.graph.edges = rt.graph.edges
  queue : rt'.scheduler.queue.map (·.taskId) =
    ids.reverse ++ rt.scheduler.queue.map (·.taskId)
  inFlight : rt'.scheduler.inFlight = rt.scheduler.inFlight

namespace Puts

variable {rt rt' rt'' : Runtime} {ids ids' : List TaskId}

theorem refl (rt : Runtime) : Puts rt rt [] :=
  ⟨fun _ h => absurd h List.not_mem_nil, .nil, fun _ => rfl, rfl, rfl, rfl⟩

theorem one {id : TaskId} {node : TaskNode} (hnode : rt.graph.get id = some node)
    (hstate : node.state = .pending) (agent : AgentId) (priority time : Nat) :
    Puts rt ((rt.setState id .ready).enqueue ⟨id, agent, priority, time⟩) [id] where
  pending id' h := by
    rw [List.mem_singleton] at h
    exact ⟨node, h ▸ hnode, hstate⟩
  nodup := List.nodup_singleton id
  get id' := by
    have hget := get_setState rt id .ready id'
    by_cases hid : id' = id
    · subst hid
      rw [if_pos rfl] at hget
      rw [if_pos (List.mem_singleton_self _)]
      exact hget
    · rw [if_neg hid] at hget
      rw [if_neg (fun h => hid (List.mem_singleton.mp h))]
      exact hget
  edges := TaskGraph.edges_setState _ _ _
  queue := rfl
  inFlight := rfl

theorem publish (h : Puts rt rt' ids) (e : Event) : Puts rt (rt'.publish e) ids :=
  ⟨h.pending, h.nodup, h.get, h.edges, h.queue, h.inFlight⟩

/-- A node that was put is no longer pending, so it is not put again. -/
theorem disjoint (h : Puts rt rt' ids) (h' : Puts rt' rt'' ids') : ids.Disjoint ids' := by
  intro id hid hid'
  obtain ⟨node, hnode, hstate⟩ := h'.pending id hid'
  rw [h.get id, if_pos hid] at hnode
  obtain ⟨n, -, rfl⟩ := Option.map_eq_some_iff.mp hnode
  cases hstate

theorem trans (h : Puts rt rt' ids) (h' : Puts rt' rt'' ids') : Puts rt rt'' (ids ++ ids') where
  pending id hid := by
    rcases List.mem_append.mp hid with hid | hid
    · exact h.pending id hid
    · obtain ⟨node, hnode, hstate⟩ := h'.pending id hid
      have hnot : id ∉ ids := fun hmem => h.disjoint h' hmem hid
      rw [h.get id, if_neg hnot] at hnode
      exact ⟨node, hnode, hstate⟩
  nodup := h.nodup.append h'.nodup (h.disjoint h')
  get id := by
    rw [h'.get id]
    by_cases hid : id ∈ ids
    · have hnot : id ∉ ids' := fun hmem => h.disjoint h' hid hmem
      rw [if_neg hnot, h.get id, if_pos hid, if_pos (List.mem_append_left _ hid)]
    · rw [h.get id, if_neg hid]
      simp only [List.mem_append, hid, false_or]
  edges := h'.edges.trans h.edges
  queue := by rw [h'.queue, h.queue, List.reverse_append, List.append_assoc]
  inFlight := h'.inFlight.trans h.inFlight

theorem relabels (h : Puts rt rt' ids) : rt.graph.Relabels rt'.graph := by
  intro id
  rw [h.get id]
  split_ifs
  · exact Or.inr ⟨.ready, rfl⟩
  · exact Or.inl rfl

/-- A node that was put is ready. -/
theorem ready (h : Puts rt rt' ids) {id : TaskId} (hid : id ∈ ids) :
    ∃ node, rt'.graph.get id = some node ∧ node.state = .ready := by
  obtain ⟨node, hnode, -⟩ := h.pending id hid
  refine ⟨{ node with state := .ready }, ?_, rfl⟩
  rw [h.get id, if_pos hid, hnode]
  rfl

/-- What has succeeded stays so, and nothing else comes to it. -/
theorem succeeded_iff (h : Puts rt rt' ids) (id : TaskId) :
    (∃ node, rt'.graph.get id = some node ∧ node.state = .succeeded) ↔
      ∃ node, rt.graph.get id = some node ∧ node.state = .succeeded := by
  by_cases hid : id ∈ ids
  · obtain ⟨node, hnode, hpending⟩ := h.pending id hid
    obtain ⟨node', hnode', hready⟩ := h.ready hid
    constructor
    · rintro ⟨n, hn, hs⟩
      rw [hnode'] at hn
      cases hn
      rw [hready] at hs
      cases hs
    · rintro ⟨n, hn, hs⟩
      rw [hnode] at hn
      cases hn
      rw [hpending] at hs
      cases hs
  · rw [h.get id, if_neg hid]

theorem dep_eq (h : Puts rt rt' ids) : rt'.graph.Dep = rt.graph.Dep := by
  unfold TaskGraph.Dep TaskGraph.arcs
  rw [h.edges]

theorem dependenciesSucceeded_eq (h : Puts rt rt' ids) (child : TaskId) :
    dependenciesSucceeded rt'.graph child = dependenciesSucceeded rt.graph child := by
  rw [Bool.eq_iff_iff, dependenciesSucceeded_iff, dependenciesSucceeded_iff, h.dep_eq]
  exact forall_congr' fun a => imp_congr_right fun _ => h.succeeded_iff a

end Puts

/-! ## Dependents -/

/-- A dependent is put when nothing holds it back and it is pending. -/
theorem puts_enqueueDependent (rt : Runtime) (child : TaskId) (time : Nat) :
    ∃ ids, Puts rt (enqueueDependent rt child time) ids ∧
      ∀ id, id ∈ ids ↔ id = child ∧ dependenciesSucceeded rt.graph child = true ∧
        ∃ node, rt.graph.get child = some node ∧ node.state = .pending := by
  unfold enqueueDependent
  split
  next hdeps =>
    split
    next hnone =>
      refine ⟨[], .refl rt, fun id => ⟨fun h => absurd h List.not_mem_nil, ?_⟩⟩
      rintro ⟨-, -, node, hnode, -⟩
      rw [hnone] at hnode
      cases hnode
    next node hnode =>
      split
      next hpending =>
        refine ⟨[child], .one hnode hpending _ _ _, fun id => ?_⟩
        rw [List.mem_singleton]
        exact ⟨fun h => ⟨h, hdeps, node, hnode, hpending⟩, fun h => h.1⟩
      next hother =>
        refine ⟨[], .refl rt, fun id => ⟨fun h => absurd h List.not_mem_nil, ?_⟩⟩
        rintro ⟨-, -, node', hnode', hpending⟩
        rw [hnode] at hnode'
        cases hnode'
        exact absurd hpending hother
  next hdeps =>
    refine ⟨[], .refl rt, fun id => ⟨fun h => absurd h List.not_mem_nil, ?_⟩⟩
    rintro ⟨-, hdeps', -⟩
    exact absurd hdeps' hdeps

theorem puts_enqueueChildren (clock : Nat → Nat) (rt : Runtime) (k : Nat)
    (children : List TaskId) :
    ∃ ids, Puts rt (enqueueChildren clock rt k children) ids ∧
      ∀ id, id ∈ ids ↔ id ∈ children ∧ dependenciesSucceeded rt.graph id = true ∧
        ∃ node, rt.graph.get id = some node ∧ node.state = .pending := by
  induction children generalizing rt k with
  | nil => exact ⟨[], .refl rt, fun id => by simp⟩
  | cons child children ih =>
      obtain ⟨first, hfirst, hfirstIff⟩ := puts_enqueueDependent rt child (clock k)
      obtain ⟨rest, hrest, hrestIff⟩ := ih (enqueueDependent rt child (clock k)) (k + 1)
      refine ⟨first ++ rest, hfirst.trans hrest, fun id => ?_⟩
      rw [List.mem_append, hfirstIff, hrestIff, hfirst.dependenciesSucceeded_eq, hfirst.get id,
        List.mem_cons]
      constructor
      · rintro (⟨rfl, hdeps, hpending⟩ | ⟨hmem, hdeps, node, hnode, hpending⟩)
        · exact ⟨Or.inl rfl, hdeps, hpending⟩
        · by_cases hid : id ∈ first
          · exact ⟨Or.inl ((hfirstIff id).mp hid).1, hdeps, hfirst.pending id hid⟩
          · rw [if_neg hid] at hnode
            exact ⟨Or.inr hmem, hdeps, node, hnode, hpending⟩
      · rintro ⟨hmem, hdeps, hpending⟩
        by_cases hid : id ∈ first
        · exact Or.inl ((hfirstIff id).mp hid)
        · rcases hmem with rfl | hmem
          · exact Or.inl ⟨rfl, hdeps, hpending⟩
          · rw [if_neg hid]
            exact Or.inr ⟨hmem, hdeps, hpending⟩

/-- The dependents of a node are put when nothing holds them back any more. -/
theorem puts_enqueueReadyDependents (clock : Nat → Nat) (rt : Runtime) (completed : TaskId) :
    ∃ ids, Puts rt (enqueueReadyDependents clock rt completed) ids ∧
      ∀ id, id ∈ ids ↔ rt.graph.Dep completed id ∧ dependenciesSucceeded rt.graph id = true ∧
        ∃ node, rt.graph.get id = some node ∧ node.state = .pending := by
  obtain ⟨ids, hputs, hmem⟩ := puts_enqueueChildren clock rt 0
    ((rt.graph.edges.filter (·.src = completed)).map (·.dst))
  refine ⟨ids, hputs, fun id => ?_⟩
  rw [hmem id, ← TaskGraph.next_arcs, Digraph.mem_next]
  rfl

end Orchestrator

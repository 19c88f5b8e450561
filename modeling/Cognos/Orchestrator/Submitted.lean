/-
# `Cognos.Orchestrator.Submitted` — what a submit leaves behind

`submit` adds the nodes of the plan under the ids minted for them, wires the edges until
one is refused, and puts the ready tasks into the queue.  `SubmitCase` lists its ends:
no plan and nothing done; a plan and an error, its nodes and some of its edges left in the
graph; or all of the plan in the graph and the ready tasks in the queue.
-/
import Mathlib
import Cognos.Orchestrator.Effects

namespace Orchestrator

/-- The id the `k`-th node of a plan gets. -/
def minted (w : SubmitWorld) (k : Nat) : TaskId := ⟨w.freshIds k⟩

/-- The `k`-th node of a plan, as it is in the graph. -/
def placedNode (rt : Runtime) (w : SubmitWorld) (k : Nat) (sub : PlannedSubTask) : TaskNode :=
  { plannedTask rt w sub with id := minted w k }

/-- The edge for a pair of a plan's edges. -/
def plannedEdge (w : SubmitWorld) {n : Nat} (e : Fin n × Fin n) : Edge :=
  ⟨minted w e.1, minted w e.2, .control⟩

/-! ## Nodes -/

theorem addNode_eq (rt : Runtime) (w : SubmitWorld) (k : Nat) (p : PlannedNode) :
    addNode rt w k p =
      ({ rt with
          graph := { rt.graph with
            nodes := rt.graph.nodes.insert (minted w k) (placedNode rt w k p.subTask) }
          bus := .taskCreated (minted w k) (placedNode rt w k p.subTask).agent :: rt.bus },
        minted w k) := by
  have hnil : (plannedTask rt w p.subTask).id.id = Uuid.nil := rfl
  simp only [addNode, TaskGraph.addTask, hnil, if_true]
  rfl

theorem get_addNode (rt : Runtime) (w : SubmitWorld) (k : Nat) (p : PlannedNode) (id : TaskId) :
    (addNode rt w k p).1.graph.get id =
      if id = minted w k then some (placedNode rt w k p.subTask) else rt.graph.get id := by
  rw [addNode_eq]
  by_cases hid : id = minted w k
  · subst hid
    rw [if_pos rfl]
    exact AList.lookup_insert _
  · rw [if_neg hid]
    exact AList.lookup_insert_ne hid

theorem ids_addNodes (w : SubmitWorld) (rt : Runtime) (k : Nat) (nodes : List PlannedNode) :
    (addNodes w rt k nodes).2.1 = (List.range' k nodes.length).map (minted w) := by
  induction nodes generalizing rt k with
  | nil => rfl
  | cons p ps ih =>
      have hid : (addNode rt w k p).2 = minted w k := by rw [addNode_eq]
      show (addNode rt w k p).2 :: (addNodes w (addNode rt w k p).1 (k + 1) ps).2.1 =
        (List.range' k (ps.length + 1)).map (minted w)
      rw [List.range'_succ, List.map_cons, hid, ih]

theorem fields_addNodes (w : SubmitWorld) (rt : Runtime) (k : Nat) (nodes : List PlannedNode) :
    (addNodes w rt k nodes).1.graph.edges = rt.graph.edges ∧
      (addNodes w rt k nodes).1.scheduler = rt.scheduler := by
  induction nodes generalizing rt k with
  | nil => exact ⟨rfl, rfl⟩
  | cons p ps ih =>
      obtain ⟨hedges, hscheduler⟩ := ih (addNode rt w k p).1 (k + 1)
      rw [addNode_eq] at hedges hscheduler
      exact ⟨hedges, hscheduler⟩

/-- A node whose id is not minted stays as it is. -/
theorem get_addNodes_old {w : SubmitWorld} {rt : Runtime} {k : Nat} {nodes : List PlannedNode}
    {id : TaskId} (h : ∀ i < nodes.length, id ≠ minted w (k + i)) :
    (addNodes w rt k nodes).1.graph.get id = rt.graph.get id := by
  induction nodes generalizing rt k with
  | nil => rfl
  | cons p ps ih =>
      have hfirst : id ≠ minted w k := h 0 (Nat.succ_pos _)
      have hrest : ∀ i < ps.length, id ≠ minted w (k + 1 + i) := by
        intro i hi
        rw [Nat.add_assoc, Nat.add_comm 1 i]
        exact h (i + 1) (Nat.succ_lt_succ hi)
      have hget : (addNodes w (addNode rt w k p).1 (k + 1) ps).1.graph.get id = _ := ih hrest
      rw [get_addNode, if_neg hfirst] at hget
      exact hget

/-- Under distinct ids, every node of the plan is there. -/
theorem get_addNodes_new {w : SubmitWorld} {rt : Runtime} {k : Nat} {nodes : List PlannedNode}
    (h : ∀ i < nodes.length, ∀ j < nodes.length, minted w (k + i) = minted w (k + j) → i = j)
    {i : Nat} (hi : i < nodes.length) :
    (addNodes w rt k nodes).1.graph.get (minted w (k + i)) =
      some (placedNode rt w (k + i) nodes[i].subTask) := by
  induction nodes generalizing rt k i with
  | nil => exact absurd hi (Nat.not_lt_zero i)
  | cons p ps ih =>
      have hstep : ∀ m, k + 1 + m = k + (m + 1) := fun m => by omega
      cases i with
      | zero =>
          have hold : ∀ m < ps.length, minted w k ≠ minted w (k + 1 + m) := by
            intro m hm heq
            rw [hstep] at heq
            cases h 0 (Nat.succ_pos _) (m + 1) (Nat.succ_lt_succ hm) heq
          have hget : (addNodes w (addNode rt w k p).1 (k + 1) ps).1.graph.get (minted w k) = _ :=
            get_addNodes_old hold
          rw [get_addNode, if_pos rfl] at hget
          exact hget
      | succ i =>
          have hrest : ∀ i < ps.length, ∀ j < ps.length,
              minted w (k + 1 + i) = minted w (k + 1 + j) → i = j := by
            intro a ha b hb heq
            rw [hstep, hstep] at heq
            exact Nat.succ_injective (h (a + 1) (Nat.succ_lt_succ ha) (b + 1)
              (Nat.succ_lt_succ hb) heq)
          have hget : (addNodes w (addNode rt w k p).1 (k + 1) ps).1.graph.get
              (minted w (k + 1 + i)) = _ := ih hrest (Nat.lt_of_succ_lt_succ hi)
          have hsame : ∀ n sub,
              placedNode (addNode rt w k p).1 w n sub = placedNode rt w n sub := by
            intro n sub
            rw [addNode_eq]
            rfl
          rw [hsame, hstep] at hget
          exact hget

theorem isSome_addNodes (w : SubmitWorld) (rt : Runtime) (k : Nat) (nodes : List PlannedNode)
    {id : TaskId} (h : (rt.graph.get id).isSome) :
    ((addNodes w rt k nodes).1.graph.get id).isSome := by
  induction nodes generalizing rt k with
  | nil => exact h
  | cons p ps ih =>
      refine ih (addNode rt w k p).1 (k + 1) ?_
      rw [get_addNode]
      split_ifs
      · rfl
      · exact h

theorem wf_addNodes (w : SubmitWorld) {rt : Runtime} (k : Nat) (nodes : List PlannedNode)
    (h : rt.graph.Wf) : (addNodes w rt k nodes).1.graph.Wf := by
  induction nodes generalizing rt k with
  | nil => exact h
  | cons p ps ih =>
      have hnode : (addNode rt w k p).1.graph.Wf := h.congr ?_ ?_ ?_
      · exact ih (k + 1) hnode
      · rw [addNode_eq]
      · intro id node hnode
        rw [get_addNode] at hnode
        split_ifs at hnode with hid
        · cases hnode
          exact hid.symm
        · exact h.keyed id node hnode
      · intro id hid
        exact isSome_addNodes w rt k [p] hid

/-! ## Edges -/

/-- The edges that are accepted before one is refused; all of them, if none is. -/
theorem addEdges_eq {n : Nat} (ids : { ids : List TaskId // ids.length = n }) (rt : Runtime)
    (es : List (Fin n × Fin n)) :
    ∃ m, (addEdges ids rt es).2 =
        { rt with
          graph := { rt.graph with
            edges := rt.graph.edges ++ (es.take m).map fun e =>
              ⟨ids.1.get (e.1.cast ids.2.symm), ids.1.get (e.2.cast ids.2.symm), .control⟩ } } ∧
      ((addEdges ids rt es).1 = .ok () → es.take m = es) := by
  induction es generalizing rt with
  | nil => exact ⟨0, by simp [addEdges], fun _ => rfl⟩
  | cons e es ih =>
      obtain ⟨i, j⟩ := e
      rw [addEdges]
      split
      next => exact ⟨0, by simp, fun h => by cases h⟩
      next graph hg =>
        obtain ⟨rfl, -⟩ := TaskGraph.addDependency_ok hg
        obtain ⟨m, hrt, hok⟩ := ih _
        refine ⟨m + 1, ?_, fun h => ?_⟩
        · rw [hrt]
          simp
        · rw [List.take_succ_cons, hok h]

theorem wf_addEdges {n : Nat} (ids : { ids : List TaskId // ids.length = n }) {rt : Runtime}
    (es : List (Fin n × Fin n)) (h : rt.graph.Wf) : (addEdges ids rt es).2.graph.Wf := by
  induction es generalizing rt with
  | nil => exact h
  | cons e es ih =>
      obtain ⟨i, j⟩ := e
      rw [addEdges]
      split
      next => exact h
      next graph hg =>
        have hnext : ({ rt with graph := graph } : Runtime).graph.Wf := h.addDependency hg
        exact ih hnext

/-! ## Roots -/

theorem puts_enqueueRoots (w : SubmitWorld) (priority : Nat) (rt : Runtime) (k : Nat)
    {ids : List TaskId} (hnodup : ids.Nodup)
    (hpending : ∀ id ∈ ids, ∃ node, rt.graph.get id = some node ∧ node.state = .pending) :
    Puts rt (enqueueRoots w priority rt k ids) ids := by
  induction ids generalizing rt k with
  | nil => exact .refl rt
  | cons id ids ih =>
      obtain ⟨hnot, hnodup⟩ := List.nodup_cons.mp hnodup
      obtain ⟨node, hnode, hstate⟩ := hpending id List.mem_cons_self
      let agent := (((rt.setState id .ready).graph.get id).map (·.agent)).getD coordinator
      have hone := (Puts.one hnode hstate agent priority (w.clock k)).publish
        (.taskStateChanged id .pending .ready)
      show Puts rt _ ([id] ++ ids)
      refine hone.trans (ih _ (k + 1) hnodup ?_)
      intro id' hid'
      obtain ⟨node', hnode', hstate'⟩ := hpending id' (List.mem_cons_of_mem _ hid')
      have hne : id' ∉ [id] := fun h => hnot (List.mem_singleton.mp h ▸ hid')
      have hget := hone.get id'
      rw [if_neg hne] at hget
      exact ⟨node', hget.trans hnode', hstate'⟩

/-! ## Submit -/

/-- The nodes of the plan and its first `m` edges are in the graph. -/
structure Wired (rt : Runtime) (w : SubmitWorld) (plan : DecompositionPlan) (m : Nat)
    (rt' : Runtime) : Prop where
  get : ∀ id, rt'.graph.get id = (addNodes w rt 0 plan.nodes).1.graph.get id
  edges : rt'.graph.edges = rt.graph.edges ++ (plan.edges.take m).map (plannedEdge w)
  scheduler : rt'.scheduler = rt.scheduler
  wf : rt.graph.Wf → rt'.graph.Wf

/-- The ends of a submit. -/
inductive SubmitCase (rt : Runtime) (w : SubmitWorld) (intent : Intent) :
    Except OrchestratorError TaskId × Runtime → Prop
  /-- There is no plan. -/
  | noPlan (e : OrchestratorError) (hplan : resolveDecomposition rt w intent = .error e) :
      SubmitCase rt w intent (.error e, rt)
  /-- An edge is refused, or nothing is ready. -/
  | stopped (e : OrchestratorError) (plan : DecompositionPlan) (m : Nat) (rt' : Runtime)
      (hplan : resolveDecomposition rt w intent = .ok plan) (hwired : Wired rt w plan m rt') :
      SubmitCase rt w intent (.error e, rt')
  /-- All of the plan is in the graph, and the ready tasks are in the queue. -/
  | placed (plan : DecompositionPlan) (m : Nat) (rt' rt'' : Runtime) (root : TaskId)
      (roots : List TaskId) (hplan : resolveDecomposition rt w intent = .ok plan)
      (hwired : Wired rt w plan m rt') (hall : plan.edges.take m = plan.edges)
      (hready : rt'.graph.readyTasks w.nodeWalk = root :: roots)
      (hputs : Puts rt' rt'' (root :: roots)) : SubmitCase rt w intent (.ok root, rt'')

theorem wired_addEdges (rt : Runtime) (w : SubmitWorld) (plan : DecompositionPlan) :
    ∃ m, Wired rt w plan m
        (addEdges (addNodes w rt 0 plan.nodes).2 (addNodes w rt 0 plan.nodes).1 plan.edges).2 ∧
      ((addEdges (addNodes w rt 0 plan.nodes).2 (addNodes w rt 0 plan.nodes).1 plan.edges).1 =
        .ok () → plan.edges.take m = plan.edges) := by
  obtain ⟨m, hrt, hok⟩ := addEdges_eq (addNodes w rt 0 plan.nodes).2
    (addNodes w rt 0 plan.nodes).1 plan.edges
  obtain ⟨hedges, hscheduler⟩ := fields_addNodes w rt 0 plan.nodes
  have hid : ∀ i : Fin plan.nodes.length, (addNodes w rt 0 plan.nodes).2.1.get
      (i.cast (addNodes w rt 0 plan.nodes).2.2.symm) = minted w i := by
    intro i
    simp [ids_addNodes]
  refine ⟨m, ⟨fun id => by rw [hrt]; rfl, ?_, ?_,
    fun hwf => wf_addEdges _ _ (wf_addNodes w 0 _ hwf)⟩, hok⟩
  · rw [hrt]
    show (addNodes w rt 0 plan.nodes).1.graph.edges ++ _ = _
    rw [hedges]
    congr 1
    refine List.map_congr_left fun e _ => ?_
    rw [hid, hid]
    rfl
  · rw [hrt]
    exact hscheduler

theorem submit_case (rt : Runtime) (w : SubmitWorld) (intent : Intent) :
    SubmitCase rt w intent (submit rt w intent) := by
  unfold submit
  split
  next e hplan => exact .noPlan e hplan
  next plan hplan =>
  obtain ⟨m, hwired, hok⟩ := wired_addEdges rt w plan
  simp only
  split
  next e rt' h =>
    rw [h] at hwired
    exact .stopped e plan m rt' hplan hwired
  next rt' h =>
    rw [h] at hwired hok
    split
    next => exact .stopped _ plan m rt' hplan hwired
    next root roots hready =>
      refine .placed plan m rt' _ root roots hplan hwired (hok rfl) hready
        (puts_enqueueRoots w _ rt' 0 (hready ▸ rt'.graph.nodup_readyTasks w.nodeWalk) ?_)
      intro id hid
      exact TaskGraph.get_of_mem_readyTasks (hready ▸ hid)

/-- The ids of a submit are new, and no two of them are the same. -/
structure FreshIds (rt : Runtime) (w : SubmitWorld) (n : Nat) : Prop where
  new : ∀ i < n, rt.graph.get (minted w i) = none
  distinct : ∀ i < n, ∀ j < n, minted w i = minted w j → i = j

section Wired

variable {rt rt₁ : Runtime} {w : SubmitWorld} {plan : DecompositionPlan} {m : Nat}

/-- A submit that mints new ids leaves the nodes that are there alone while it wires. -/
theorem get_wired_old (hwired : Wired rt w plan m rt₁)
    (hfresh : FreshIds rt w plan.nodes.length) {id : TaskId} {node : TaskNode}
    (hnode : rt.graph.get id = some node) : rt₁.graph.get id = some node := by
  rw [hwired.get, get_addNodes_old, hnode]
  intro i hi hid
  have hnone := hfresh.new i hi
  rw [← Nat.zero_add i, ← hid, hnode] at hnone
  cases hnone

theorem dep_wired (hwired : Wired rt w plan m rt₁) {a b : TaskId} :
    rt₁.graph.Dep a b ↔ rt.graph.Dep a b ∨
      ∃ e ∈ plan.edges.take m, minted w e.1 = a ∧ minted w e.2 = b := by
  rw [TaskGraph.dep_iff, TaskGraph.dep_iff, hwired.edges]
  simp only [List.mem_append, List.mem_map]
  constructor
  · rintro ⟨e, he | ⟨p, hp, rfl⟩, rfl, rfl⟩
    · exact Or.inl ⟨e, he, rfl, rfl⟩
    · exact Or.inr ⟨p, hp, rfl, rfl⟩
  · rintro (⟨e, he, rfl, rfl⟩ | ⟨p, hp, rfl, rfl⟩)
    · exact ⟨e, Or.inl he, rfl, rfl⟩
    · exact ⟨plannedEdge w p, Or.inr ⟨p, hp, rfl⟩, rfl, rfl⟩

/-- A node of the plan, under the new ids. -/
theorem get_wired_new (hwired : Wired rt w plan m rt₁) (hfresh : FreshIds rt w plan.nodes.length)
    (i : Fin plan.nodes.length) :
    rt₁.graph.get (minted w i) = some (placedNode rt w i (plan.nodes.get i).subTask) := by
  have hdistinct : ∀ i < plan.nodes.length, ∀ j < plan.nodes.length,
      minted w (0 + i) = minted w (0 + j) → i = j := by
    intro i hi j hj heq
    rw [Nat.zero_add, Nat.zero_add] at heq
    exact hfresh.distinct i hi j hj heq
  have hget : (addNodes w rt 0 plan.nodes).1.graph.get (minted w (0 + i)) =
      some (placedNode rt w (0 + i) (plan.nodes.get i).subTask) :=
    get_addNodes_new hdistinct i.isLt
  rw [Nat.zero_add] at hget
  rw [hwired.get]
  exact hget

/-- A node that the submit added is one of the plan's. -/
theorem minted_of_new (hwired : Wired rt w plan m rt₁) {id : TaskId} {node : TaskNode}
    (hnew : rt.graph.get id = none) (hnode : rt₁.graph.get id = some node) :
    ∃ i : Fin plan.nodes.length, id = minted w i := by
  by_contra hnone
  have hold : ∀ i < plan.nodes.length, id ≠ minted w (0 + i) := by
    intro i hi heq
    rw [Nat.zero_add] at heq
    exact hnone ⟨⟨i, hi⟩, heq⟩
  rw [hwired.get, get_addNodes_old hold, hnew] at hnode
  cases hnode

end Wired

end Orchestrator

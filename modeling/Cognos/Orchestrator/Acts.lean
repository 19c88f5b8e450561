/-
# `Cognos.Orchestrator.Acts` — the runtime as a machine

`cancel`, and the steps a runtime can take in any order:

    submit                     nodes and edges of a plan, the ready tasks into the queue
    next                       `scheduler.next()`
    dispatch_node              any node, queued or not
    complete                   `graph.mark_completed`, `scheduler.complete`
    enqueue_ready_dependents   what a completed node frees
    cancel                     a task and its descendants

A round of the loop of `submit_and_execute` is a sequence of these (`exists_acts_execLoop`).
What a step can do to a node that is there is one of the shifts of `Shift` (`act_shift`).
-/
import Mathlib
import Cognos.Lib.Run
import Cognos.Orchestrator.Submitted

namespace Orchestrator

open Relation

variable {Time : Type}

/-! ## Cancel -/

/-- `to_cancel`: the task and its descendants, each as often as there are ways to it. -/
def toCancel (g : TaskGraph) (rounds : Nat) (task : TaskId) : Option (List TaskId) :=
  Digraph.walk g.arcs rounds [task] [task]

/-- Mark one node as skipped. -/
def skipNode (rt : Runtime) (id : TaskId) : Runtime :=
  match rt.graph.get id with
  | none => rt
  | some node => (rt.setState id .skipped).publish (.taskStateChanged id node.state .skipped)

/-- Cancel a task and all its descendants; `none` when the rounds ran out on the way. -/
def cancel (rt : Runtime) (rounds : Nat) (task : TaskId) : Option Runtime :=
  (toCancel rt.graph rounds task).map fun ids => ids.foldl skipNode rt

theorem mem_toCancel {g : TaskGraph} {rounds : Nat} {task : TaskId} {ids : List TaskId}
    (h : toCancel g rounds task = some ids) (id : TaskId) :
    id ∈ ids ↔ ReflTransGen g.Dep task id := by
  rw [Digraph.mem_walk h, List.mem_singleton, reflTransGen_iff_eq_or_transGen]
  simp only [List.mem_singleton, exists_eq_left]
  rfl

theorem get_skipNode (rt : Runtime) (id id' : TaskId) :
    (skipNode rt id).graph.get id' =
      if id' = id then (rt.graph.get id).map ({ · with state := .skipped })
      else rt.graph.get id' := by
  unfold skipNode
  cases h : rt.graph.get id with
  | none =>
      by_cases hid : id' = id
      · subst hid
        simp [h]
      · simp [hid]
  | some node =>
      show (rt.setState id .skipped).graph.get id' = _
      rw [get_setState, h]

theorem fields_skipNode (rt : Runtime) (id : TaskId) :
    (skipNode rt id).graph.edges = rt.graph.edges ∧ (skipNode rt id).scheduler = rt.scheduler := by
  unfold skipNode
  split
  · exact ⟨rfl, rfl⟩
  · exact ⟨TaskGraph.edges_setState _ _ _, rfl⟩

theorem get_skipNodes (rt : Runtime) (ids : List TaskId) (id : TaskId) :
    (ids.foldl skipNode rt).graph.get id =
      if id ∈ ids then (rt.graph.get id).map ({ · with state := .skipped })
      else rt.graph.get id := by
  induction ids generalizing rt with
  | nil => simp
  | cons head ids ih =>
      rw [List.foldl_cons, ih, get_skipNode]
      by_cases hhead : id = head
      · subst hhead
        simp [Option.map_map, Function.comp_def]
      · simp [hhead]

theorem fields_skipNodes (rt : Runtime) (ids : List TaskId) :
    (ids.foldl skipNode rt).graph.edges = rt.graph.edges ∧
      (ids.foldl skipNode rt).scheduler = rt.scheduler := by
  induction ids generalizing rt with
  | nil => exact ⟨rfl, rfl⟩
  | cons id ids ih =>
      obtain ⟨hedges, hscheduler⟩ := fields_skipNode rt id
      obtain ⟨hedges', hscheduler'⟩ := ih (skipNode rt id)
      exact ⟨hedges'.trans hedges, hscheduler'.trans hscheduler⟩

/-- What a cancel does: the task's descendants are skipped, and nothing else changes. -/
structure Cancels (rt rt' : Runtime) (task : TaskId) : Prop where
  reached : ∀ id, ReflTransGen rt.graph.Dep task id →
    rt'.graph.get id = (rt.graph.get id).map ({ · with state := .skipped })
  other : ∀ id, ¬ ReflTransGen rt.graph.Dep task id → rt'.graph.get id = rt.graph.get id
  edges : rt'.graph.edges = rt.graph.edges
  scheduler : rt'.scheduler = rt.scheduler

theorem cancels_of_cancel {rt rt' : Runtime} {rounds : Nat} {task : TaskId}
    (h : cancel rt rounds task = some rt') : Cancels rt rt' task := by
  obtain ⟨ids, hids, rfl⟩ := Option.map_eq_some_iff.mp h
  obtain ⟨hedges, hscheduler⟩ := fields_skipNodes rt ids
  refine ⟨?_, ?_, hedges, hscheduler⟩
  · intro id hid
    rw [get_skipNodes, if_pos ((mem_toCancel hids id).mpr hid)]
  · intro id hid
    rw [get_skipNodes, if_neg fun hmem => hid ((mem_toCancel hids id).mp hmem)]

theorem Cancels.relabels {rt rt' : Runtime} {task : TaskId} (h : Cancels rt rt' task) :
    rt.graph.Relabels rt'.graph := by
  intro id
  by_cases hreach : ReflTransGen rt.graph.Dep task id
  · exact Or.inr ⟨.skipped, h.reached id hreach⟩
  · exact Or.inl (h.other id hreach)

/-- On a graph without cycles a cancel comes to an end. -/
theorem exists_cancel {rt : Runtime} (h : Digraph.Acyclic rt.graph.Dep) (task : TaskId) :
    ∃ rounds rt', cancel rt rounds task = some rt' := by
  obtain ⟨rounds, ids, hwalk⟩ := Digraph.exists_walk h task [task]
  exact ⟨rounds, ids.foldl skipNode rt, Option.map_eq_some_iff.mpr ⟨ids, hwalk, rfl⟩⟩

/-! ## Steps -/

/-- The result of the executor goes into the graph, and the task leaves the tasks in flight. -/
def complete (rt : Runtime) (id : TaskId) (result : TaskResult) : Runtime :=
  let rt := { rt with graph := rt.graph.markCompleted id result }
  { rt with scheduler := rt.scheduler.complete id }

inductive Act (Time : Type)
  | submit (w : SubmitWorld) (intent : Intent)
  | next (pick : Nat)
  | dispatchNode (w : GateWorld Time) (id : TaskId) (traceId : String)
  | complete (id : TaskId) (result : TaskResult)
  | enqueueReadyDependents (clock : Nat → Nat) (completed : TaskId)
  | cancel (rounds : Nat) (task : TaskId)

/-- One step; a `next` on an empty queue and a cancel that is still walking change nothing. -/
def act (rt : Runtime) : Act Time → Runtime
  | .submit w intent => (submit rt w intent).2
  | .next pick =>
      match rt.scheduler.next pick with
      | none => rt
      | some (_, scheduler) => { rt with scheduler := scheduler }
  | .dispatchNode w id traceId => (dispatchNode rt w id traceId).runtime
  | .complete id result => complete rt id result
  | .enqueueReadyDependents clock completed => enqueueReadyDependents clock rt completed
  | .cancel rounds task => (cancel rt rounds task).getD rt

/-- What a completed node's state says of the result. -/
def stateOf (result : TaskResult) : NodeState :=
  if result.error.isNone then .succeeded else .failed

theorem get_complete (rt : Runtime) (id : TaskId) (result : TaskResult) (id' : TaskId) :
    (complete rt id result).graph.get id' =
      if id' = id then (rt.graph.get id).map ({ · with state := stateOf result })
      else rt.graph.get id' :=
  TaskGraph.get_setState rt.graph id _ id'

theorem edges_complete (rt : Runtime) (id : TaskId) (result : TaskResult) :
    (complete rt id result).graph.edges = rt.graph.edges :=
  TaskGraph.edges_setState _ _ _

theorem graph_next (rt : Runtime) (pick : Nat) :
    (act rt (.next pick : Act Time)).graph = rt.graph := by
  simp only [act]
  split <;> rfl

/-- The ids a submit mints are new. -/
def Act.Fresh (rt : Runtime) : Act Time → Prop
  | .submit w intent => ∀ plan, resolveDecomposition rt w intent = .ok plan →
      FreshIds rt w plan.nodes.length
  | _ => True

/-- What a step can do to the state of the node `id`. -/
inductive Shift (rt : Runtime) (id : TaskId) : Act Time → NodeState → NodeState → Prop
  | keep (a : Act Time) (s : NodeState) : Shift rt id a s s
  | root (w : SubmitWorld) (intent : Intent) : Shift rt id (.submit w intent) .pending .ready
  | freed (clock : Nat → Nat) (completed : TaskId) :
      Shift rt id (.enqueueReadyDependents clock completed) .pending .ready
  | runs (w : GateWorld Time) (traceId : String) (s : NodeState)
      (h : Admitted rt w id traceId) : Shift rt id (.dispatchNode w id traceId) s .running
  | refused (w : GateWorld Time) (traceId : String) (s : NodeState) :
      Shift rt id (.dispatchNode w id traceId) s .failed
  | completed (result : TaskResult) (s : NodeState) :
      Shift rt id (.complete id result) s (stateOf result)
  | skipped (rounds : Nat) (task : TaskId) (s : NodeState) :
      Shift rt id (.cancel rounds task) s .skipped

/-- A node gets one of the shifts. -/
def Shifts (rt : Runtime) (id : TaskId) (a : Act Time) (node : TaskNode)
    (found : Option TaskNode) : Prop :=
  ∃ s, found = some { node with state := s } ∧ Shift rt id a node.state s

section Shifts

variable {rt : Runtime} {id : TaskId} {node : TaskNode}

theorem Shifts.keep (a : Act Time) : Shifts rt id a node (some node) :=
  ⟨node.state, rfl, .keep a node.state⟩

theorem Shifts.keep_of_eq {found : Option TaskNode} (a : Act Time) (h : found = some node) :
    Shifts rt id a node found :=
  h ▸ .keep a

/-- A node that may be put, by a step that puts nodes. -/
theorem Shifts.of_puts {rt₁ rt' : Runtime} {ids : List TaskId} {a : Act Time}
    (hputs : Puts rt₁ rt' ids) (hnode : rt₁.graph.get id = some node)
    (hready : Shift rt id a .pending .ready) : Shifts rt id a node (rt'.graph.get id) := by
  rw [hputs.get id, hnode]
  by_cases hid : id ∈ ids
  · rw [if_pos hid]
    obtain ⟨node', hnode', hpending⟩ := hputs.pending id hid
    rw [hnode] at hnode'
    cases hnode'
    exact ⟨.ready, rfl, hpending ▸ hready⟩
  · rw [if_neg hid]
    exact .keep a

theorem shifts_submit (w : SubmitWorld) (intent : Intent) (hnode : rt.graph.get id = some node)
    (hfresh : (Act.submit w intent : Act Time).Fresh rt) :
    Shifts rt id (.submit w intent : Act Time) node ((submit rt w intent).2.graph.get id) := by
  have hold : ∀ {plan m rt'}, resolveDecomposition rt w intent = .ok plan →
      Wired rt w plan m rt' → rt'.graph.get id = some node := by
    intro plan m rt' hplan hwired
    have hnew := (hfresh plan hplan).new
    rw [hwired.get, get_addNodes_old, hnode]
    intro i hi hid
    have hnone := hnew i hi
    rw [← Nat.zero_add i, ← hid, hnode] at hnone
    cases hnone
  have hcase := submit_case rt w intent
  generalize submit rt w intent = result at hcase
  cases hcase with
  | noPlan e hplan => exact .keep_of_eq _ hnode
  | stopped e plan m rt' hplan hwired => exact .keep_of_eq _ (hold hplan hwired)
  | placed plan m rt' rt'' root roots hplan hwired hall hready hputs =>
      exact .of_puts hputs (hold hplan hwired) (.root w intent)

theorem shifts_dispatchNode (w : GateWorld Time) (id' : TaskId) (traceId : String)
    (hnode : rt.graph.get id = some node) :
    Shifts rt id (.dispatchNode w id' traceId) node
      ((dispatchNode rt w id' traceId).runtime.graph.get id) := by
  by_cases hid : id = id'
  · subst hid
    cases dispatchNode_case rt w id traceId with
    | runs hout hmark hwhy =>
        rw [hmark.sets id, if_pos rfl, hnode]
        exact ⟨.running, rfl, .runs w traceId _ hwhy⟩
    | fails hout hmark =>
        rw [hmark.sets id, if_pos rfl, hnode]
        exact ⟨.failed, rfl, .refused w traceId _⟩
    | errs hout hsame => exact .keep_of_eq _ (by rw [hsame]; exact hnode)
  · cases dispatchNode_case rt w id' traceId with
    | runs hout hmark hwhy =>
        rw [hmark.sets id, if_neg hid, hnode]
        exact .keep _
    | fails hout hmark =>
        rw [hmark.sets id, if_neg hid, hnode]
        exact .keep _
    | errs hout hsame => exact .keep_of_eq _ (by rw [hsame]; exact hnode)

theorem shifts_cancel (rounds : Nat) (task : TaskId) (hnode : rt.graph.get id = some node) :
    Shifts rt id (.cancel rounds task : Act Time) node
      (((cancel rt rounds task).getD rt).graph.get id) := by
  cases hcancel : cancel rt rounds task with
  | none => exact .keep_of_eq _ hnode
  | some rt' =>
      have hcancels := cancels_of_cancel hcancel
      by_cases hreach : ReflTransGen rt.graph.Dep task id
      · rw [Option.getD_some, hcancels.reached id hreach, hnode]
        exact ⟨.skipped, rfl, .skipped rounds task _⟩
      · rw [Option.getD_some, hcancels.other id hreach, hnode]
        exact .keep _

/-- What a step can do to a node that is there. -/
theorem act_shift (a : Act Time) (hnode : rt.graph.get id = some node) (hfresh : a.Fresh rt) :
    Shifts rt id a node ((act rt a).graph.get id) := by
  cases a with
  | submit w intent => exact shifts_submit w intent hnode hfresh
  | next pick =>
      rw [graph_next]
      exact .keep_of_eq _ hnode
  | dispatchNode w id' traceId => exact shifts_dispatchNode w id' traceId hnode
  | complete id' result =>
      show Shifts rt id _ node ((complete rt id' result).graph.get id)
      rw [get_complete]
      by_cases hid : id = id'
      · subst hid
        rw [if_pos rfl, hnode]
        exact ⟨_, rfl, .completed result _⟩
      · rw [if_neg hid]
        exact .keep_of_eq _ hnode
  | enqueueReadyDependents clock completed =>
      obtain ⟨ids, hputs, -⟩ := puts_enqueueReadyDependents clock rt completed
      exact .of_puts hputs hnode (.freed clock completed)
  | cancel rounds task => exact shifts_cancel rounds task hnode

end Shifts

/-! ## The loop is made of steps -/

/-- What a round leaves is left by a dispatch, or by a dispatch and what follows a result. -/
theorem exists_acts_round (rt : Runtime) (w : RoundWorld Time) (id : TaskId) (traceId : String) :
    ∃ acts : List (Act Time), (round rt w id traceId).runtime = Run.after act rt acts := by
  unfold round
  split
  next => exact ⟨[], rfl⟩
  next node hnode =>
  simp only
  split
  next => exact ⟨[.dispatchNode w.gate id traceId], rfl⟩
  next note hres =>
    split
    next => exact ⟨[.dispatchNode w.gate id traceId], rfl⟩
    next snapshot hsnap =>
      exact ⟨[.dispatchNode w.gate id traceId, .complete id (w.execute snapshot),
        .enqueueReadyDependents w.clock id], rfl⟩
  next => exact ⟨[.dispatchNode w.gate id traceId], rfl⟩
  next => exact ⟨[.dispatchNode w.gate id traceId], rfl⟩

/-- What the loop of `submit_and_execute` leaves is left by a sequence of steps. -/
theorem exists_acts_execLoop (worlds : Nat → RoundWorld Time) (traceId : String) (rounds k : Nat)
    (rt : Runtime) (tasks : List TaskExecutionRecord) :
    ∃ acts : List (Act Time),
      (execLoop worlds traceId rounds k rt tasks).runtime = Run.after act rt acts := by
  induction rounds generalizing k rt tasks with
  | zero => exact ⟨[], rfl⟩
  | succ rounds ih =>
      unfold execLoop
      split
      next => exact ⟨[], rfl⟩
      next entry scheduler hnext =>
        have hstep : act rt (.next (worlds k).pick : Act Time) =
            { rt with scheduler := scheduler } := by
          simp only [act, hnext]
        obtain ⟨acts, hround⟩ := exists_acts_round { rt with scheduler := scheduler } (worlds k)
          entry.taskId traceId
        have hfirst : (round { rt with scheduler := scheduler } (worlds k) entry.taskId
            traceId).runtime = Run.after act rt (.next (worlds k).pick :: acts) := by
          rw [hround, Run.after_cons, hstep]
        simp only
        split
        next => exact ⟨_, hfirst⟩
        next task success _ =>
          split
          next => exact ⟨_, hfirst⟩
          next =>
            obtain ⟨rest, hrest⟩ := ih (k + 1) (round { rt with scheduler := scheduler } (worlds k)
              entry.taskId traceId).runtime (tasks ++ [task])
            refine ⟨.next (worlds k).pick :: acts ++ rest, ?_⟩
            rw [Run.after_append, ← hfirst]
            exact hrest

end Orchestrator

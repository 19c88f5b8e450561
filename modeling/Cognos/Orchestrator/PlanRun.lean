/-
# `Cognos.Orchestrator.PlanRun` — the loop of `submit_and_execute`

A job is what a plan becomes in the graph: ids, who waits for whom, and what each node is to
do.  While the loop goes on, every node of the job is in one place (`Place`):

    done      succeeded, executed once, after all it waits for
    queued    ready; all it waits for is done
    waiting   pending; something it waits for is not done

A round that succeeds takes a queued node to the done ones and queues what that frees
(`jobInv_finishNode`); any other round ends the loop.  When the queue is empty nothing can be
waiting, for want of a cycle, so the job is done.
-/
import Mathlib
import Cognos.Orchestrator.Acts

namespace Orchestrator

open Digraph (Linear)

variable {Time : Type}

/-! ## Rounds -/

/-- The tasks handed to the executor, in order. -/
def executed (tr : List (Step Time)) : List TaskId :=
  tr.filterMap fun
    | .execute id _ => some id
    | .dispatch _ _ _ _ => none

/-- The tasks dispatched, in order. -/
def dispatched (tr : List (Step Time)) : List TaskId :=
  tr.filterMap fun
    | .dispatch _ _ id _ => some id
    | .execute _ _ => none

/-- The record is one of the node `id`. -/
structure Records (task : TaskExecutionRecord) (id : TaskId) (node : TaskNode) : Prop where
  taskId : task.taskId = id.id.text
  action : task.action = (node.field "action").getD ""
  target : task.target = (node.field "target").getD ""

/-- What a round on a node that is there comes to. -/
inductive RoundCase (rt : Runtime) (w : RoundWorld Time) (id : TaskId) (traceId : String)
    (node : TaskNode) : Round Time → Prop
  /-- The executor had the node, and its result decides. -/
  | finished (rt₂ : Runtime) (task : TaskExecutionRecord) (result : TaskResult)
      (hresult : result = w.execute { node with state := .running })
      (hmark : Marks rt rt₂ id .running)
      (hstatus : task.status = if result.error.isNone then "succeeded" else "failed")
      (hrecord : Records task id node) :
      RoundCase rt w id traceId node ⟨.ok (task, result.error.isNone),
        finishNode w.clock rt₂ id result,
        [.dispatch rt w.gate id traceId, .execute id { node with state := .running }]⟩
  /-- The dispatch was denied. -/
  | denied (rt₂ : Runtime) (task : TaskExecutionRecord) (hstatus : task.status = "denied")
      (hrecord : Records task id node) :
      RoundCase rt w id traceId node ⟨.ok (task, false), rt₂, [.dispatch rt w.gate id traceId]⟩
  /-- The dispatch ended in an error. -/
  | error (rt₂ : Runtime) (e : OrchestratorError) :
      RoundCase rt w id traceId node ⟨.error e, rt₂, [.dispatch rt w.gate id traceId]⟩

section Exits

variable {rt : Runtime} {id : TaskId} {node : TaskNode} {w : RoundWorld Time} {traceId : String}

/-- A dispatch that says so hands the node, as it is then, to the executor. -/
theorem round_of_dispatched (hnode : rt.graph.get id = some node) {note : Option String}
    (hresult : (dispatchNode rt w.gate id traceId).result = .ok (.dispatched, note))
    (hmark : Marks rt (dispatchNode rt w.gate id traceId).runtime id .running) :
    ∃ task, Records task id node ∧
      task.status = (if (w.execute { node with state := .running }).error.isNone then "succeeded"
        else "failed") ∧
      round rt w id traceId =
        ⟨.ok (task, (w.execute { node with state := .running }).error.isNone),
          finishNode w.clock (dispatchNode rt w.gate id traceId).runtime id
            (w.execute { node with state := .running }),
          [.dispatch rt w.gate id traceId, .execute id { node with state := .running }]⟩ := by
  have hget : (dispatchNode rt w.gate id traceId).runtime.graph.get id =
      some { node with state := .running } := by
    rw [hmark.sets id, if_pos rfl, hnode]
    rfl
  unfold round
  simp only [hnode, hresult, hget]
  exact ⟨_, ⟨rfl, rfl, rfl⟩, rfl, rfl⟩

theorem round_of_denied (hnode : rt.graph.get id = some node) {reason : String}
    {note : Option String}
    (hresult : (dispatchNode rt w.gate id traceId).result = .ok (.denied reason, note)) :
    ∃ task, Records task id node ∧ task.status = "denied" ∧
      round rt w id traceId = ⟨.ok (task, false), (dispatchNode rt w.gate id traceId).runtime,
        [.dispatch rt w.gate id traceId]⟩ := by
  unfold round
  simp only [hnode, hresult]
  exact ⟨_, ⟨rfl, rfl, rfl⟩, rfl, rfl⟩

theorem round_of_error (hnode : rt.graph.get id = some node) {e : OrchestratorError}
    (hresult : (dispatchNode rt w.gate id traceId).result = .error e) :
    round rt w id traceId = ⟨.error e, (dispatchNode rt w.gate id traceId).runtime,
      [.dispatch rt w.gate id traceId]⟩ := by
  unfold round
  simp only [hnode, hresult]

theorem round_case (hnode : rt.graph.get id = some node) (w : RoundWorld Time)
    (traceId : String) : RoundCase rt w id traceId node (round rt w id traceId) := by
  cases dispatchNode_case rt w.gate id traceId with
  | runs hout hmark _ =>
      obtain ⟨note, hresult⟩ := hout
      obtain ⟨task, hrecord, hstatus, hround⟩ := round_of_dispatched hnode hresult hmark
      rw [hround]
      exact .finished _ task _ rfl hmark hstatus hrecord
  | fails hout _ =>
      rcases hout with ⟨reason, note, hresult⟩ | ⟨e, hresult⟩
      · obtain ⟨task, hrecord, hstatus, hround⟩ := round_of_denied hnode hresult
        rw [hround]
        exact .denied _ task hstatus hrecord
      · rw [round_of_error hnode hresult]
        exact .error _ e
  | errs hout _ =>
      obtain ⟨e, hresult⟩ := hout
      rw [round_of_error hnode hresult]
      exact .error _ e

end Exits

/-! ## The loop, round by round -/

section Loop

variable {worlds : Nat → RoundWorld Time} {traceId : String} {k : Nat} {rt rt₂ : Runtime}
  {entry : SchedEntry} {s : OrchestratorScheduler} {task : TaskExecutionRecord}
  {tr : List (Step Time)}

theorem execLoop_idle (hnext : rt.scheduler.next (worlds k).pick = none) (rounds : Nat)
    (tasks : List TaskExecutionRecord) :
    execLoop worlds traceId (rounds + 1) k rt tasks = ⟨some (.ok tasks), rt, []⟩ := by
  simp only [execLoop, hnext]

/-- An error ends the loop. -/
theorem execLoop_error (hnext : rt.scheduler.next (worlds k).pick = some (entry, s))
    {e : OrchestratorError}
    (hround : round { rt with scheduler := s } (worlds k) entry.taskId traceId =
      ⟨.error e, rt₂, tr⟩) (rounds : Nat) (tasks : List TaskExecutionRecord) :
    execLoop worlds traceId (rounds + 1) k rt tasks = ⟨some (.error e), rt₂, tr⟩ := by
  simp only [execLoop, hnext, hround]

/-- And so does a task that failed or was denied. -/
theorem execLoop_stops (hnext : rt.scheduler.next (worlds k).pick = some (entry, s))
    (hround : round { rt with scheduler := s } (worlds k) entry.taskId traceId =
      ⟨.ok (task, false), rt₂, tr⟩) (hstatus : task.status ≠ "awaiting_hal") (rounds : Nat)
    (tasks : List TaskExecutionRecord) :
    execLoop worlds traceId (rounds + 1) k rt tasks =
      ⟨some (.ok (tasks ++ [task])), rt₂, tr⟩ := by
  have hstop : (task.status != "awaiting_hal") = true := bne_iff_ne.mpr hstatus
  simp only [execLoop, hnext, hround, hstop, Bool.not_false, Bool.true_and, if_true]

/-- After one that succeeded it goes on. -/
theorem execLoop_goesOn (hnext : rt.scheduler.next (worlds k).pick = some (entry, s))
    (hround : round { rt with scheduler := s } (worlds k) entry.taskId traceId =
      ⟨.ok (task, true), rt₂, tr⟩) (rounds : Nat) (tasks : List TaskExecutionRecord) :
    execLoop worlds traceId (rounds + 1) k rt tasks =
      { execLoop worlds traceId rounds (k + 1) rt₂ (tasks ++ [task]) with
        trace := tr ++ (execLoop worlds traceId rounds (k + 1) rt₂ (tasks ++ [task])).trace } := by
  simp only [execLoop, hnext, hround, Bool.not_true, Bool.false_and, Bool.false_eq_true, if_false]

end Loop

/-! ## Jobs -/

/-- What is to be run: the tasks, who waits for whom, and the intent of each. -/
structure Job where
  ids : List TaskId
  dep : TaskId → TaskId → Prop
  intent : TaskId → Json.Value
  joined : ∀ a b, dep a b → a ∈ ids ∧ b ∈ ids
  wf : WellFounded dep

/-- Where a task of the job is, and the state it has there. -/
inductive Place (J : Job) (queue done : List TaskId) (id : TaskId) : NodeState → Prop
  | done (hdone : id ∈ done) (hqueue : id ∉ queue) : Place J queue done id .succeeded
  | queued (hdone : id ∉ done) (hqueue : id ∈ queue) (hdeps : ∀ a, J.dep a id → a ∈ done) :
      Place J queue done id .ready
  | waiting (hdone : id ∉ done) (hqueue : id ∉ queue) (a : TaskId) (ha : J.dep a id)
      (hblocked : a ∉ done) : Place J queue done id .pending

/-- The tasks in the queue. -/
def Runtime.queued (rt : Runtime) : List TaskId := rt.scheduler.queue.map (·.taskId)

/-- Every task of the job is in its place, and `done` is in order. -/
structure JobInv (J : Job) (rt : Runtime) (done : List TaskId) : Prop where
  dep : ∀ a b, rt.graph.Dep a b ↔ J.dep a b
  place : ∀ id ∈ J.ids, ∃ node, rt.graph.get id = some node ∧ node.intent = J.intent id ∧
    Place J rt.queued done id node.state
  queued : ∀ id ∈ rt.queued, id ∈ J.ids
  queueOnce : rt.queued.Nodup
  planned : ∀ id ∈ done, id ∈ J.ids
  once : done.Nodup
  linear : Linear J.dep done

/-- Where the states say who is done, all a task waits for has succeeded exactly when it is
done. -/
theorem Job.dependenciesSucceeded_iff (J : Job) {graph : TaskGraph} {done : List TaskId}
    (hdep : ∀ a b, graph.Dep a b ↔ J.dep a b)
    (hsucceeded : ∀ id ∈ J.ids,
      (∃ node, graph.get id = some node ∧ node.state = .succeeded) ↔ id ∈ done) {id : TaskId} :
    dependenciesSucceeded graph id = true ↔ ∀ a, J.dep a id → a ∈ done := by
  rw [Orchestrator.dependenciesSucceeded_iff]
  constructor
  · intro hall a ha
    exact (hsucceeded a (J.joined a id ha).1).mp (hall a ((hdep a id).mpr ha))
  · intro hall a ha
    have ha := (hdep a id).mp ha
    exact (hsucceeded a (J.joined a id ha).1).mpr (hall a ha)

namespace JobInv

variable {J : Job} {rt : Runtime} {done : List TaskId}

theorem succeeded_iff (h : JobInv J rt done) {id : TaskId} (hid : id ∈ J.ids) :
    (∃ node, rt.graph.get id = some node ∧ node.state = .succeeded) ↔ id ∈ done := by
  obtain ⟨node, hnode, -, hplace⟩ := h.place id hid
  constructor
  · rintro ⟨node', hnode', hstate⟩
    rw [hnode] at hnode'
    cases hnode'
    rw [hstate] at hplace
    cases hplace with
    | done hdone _ => exact hdone
  · intro hdone
    refine ⟨node, hnode, ?_⟩
    generalize node.state = s at hplace
    cases hplace with
    | done => rfl
    | queued hnot => exact absurd hdone hnot
    | waiting hnot => exact absurd hdone hnot

/-- All a task waits for has succeeded exactly when it is done. -/
theorem dependenciesSucceeded_iff (h : JobInv J rt done) {id : TaskId} :
    dependenciesSucceeded rt.graph id = true ↔ ∀ a, J.dep a id → a ∈ done :=
  J.dependenciesSucceeded_iff h.dep fun _ hid => h.succeeded_iff hid

/-- A task in the queue is not done, and all that it waits for is. -/
theorem ready_of_queued (h : JobInv J rt done) {id : TaskId} (hid : id ∈ rt.queued) :
    id ∉ done ∧ ∀ a, J.dep a id → a ∈ done := by
  obtain ⟨node, -, -, hplace⟩ := h.place id (h.queued id hid)
  generalize node.state = s at hplace
  cases hplace with
  | done _ hnot => exact absurd hid hnot
  | queued hdone _ hdeps => exact ⟨hdone, hdeps⟩
  | waiting _ hnot => exact absurd hid hnot

/-- A pending task is neither done nor in the queue. -/
theorem not_mem_of_pending (h : JobInv J rt done) {id : TaskId} (hid : id ∈ J.ids)
    {node : TaskNode} (hnode : rt.graph.get id = some node) (hpending : node.state = .pending) :
    id ∉ done ∧ id ∉ rt.queued := by
  obtain ⟨node', hnode', -, hplace⟩ := h.place id hid
  obtain rfl : node = node' := Option.some.inj (hnode.symm.trans hnode')
  rw [hpending] at hplace
  cases hplace with
  | waiting hdone hqueue => exact ⟨hdone, hqueue⟩

/-- When the queue is empty, the job is done. -/
theorem all_done (h : JobInv J rt done) (hempty : rt.queued = []) {id : TaskId}
    (hid : id ∈ J.ids) : id ∈ done := by
  have hblocked : ∀ x, x ∈ J.ids → ¬ x ∈ done → ∃ a, J.dep a x ∧ a ∈ J.ids ∧ ¬ a ∈ done := by
    intro x hx hnot
    obtain ⟨node, -, -, hplace⟩ := h.place x hx
    generalize node.state = s at hplace
    cases hplace with
    | done hdone => exact absurd hdone hnot
    | queued _ hqueue =>
        rw [hempty] at hqueue
        exact absurd hqueue List.not_mem_nil
    | waiting _ _ a ha hblocked => exact ⟨a, ha, (J.joined a x ha).1, hblocked⟩
  exact Digraph.all_of_blocked J.wf hblocked id hid

theorem length_le (h : JobInv J rt done) : done.length ≤ J.ids.length :=
  (h.once.subperm h.planned).length_le

end JobInv

/-! ## One round of a job -/

/-- Taking an entry off a queue without repetitions. -/
theorem queued_erase {queue : List SchedEntry} {entry : SchedEntry} (hmem : entry ∈ queue)
    (hnodup : (queue.map (·.taskId)).Nodup) :
    (entry.taskId :: (queue.erase entry).map (·.taskId)).Nodup ∧
      ∀ id, id ∈ queue.map (·.taskId) ↔
        id = entry.taskId ∨ id ∈ (queue.erase entry).map (·.taskId) := by
  have hperm := (List.perm_cons_erase hmem).map (·.taskId)
  rw [List.map_cons] at hperm
  refine ⟨hperm.nodup_iff.mp hnodup, fun id => ?_⟩
  rw [hperm.mem_iff, List.mem_cons]

section Round

variable {J : Job} {rt rt₁ rt₂ : Runtime} {done : List TaskId} {x : TaskId} {result : TaskResult}

/-- The state behind a round that took `x` off the queue, ran it and marked it succeeded. -/
structure Ran (rt rt' : Runtime) (x : TaskId) : Prop where
  get : ∀ id, rt'.graph.get id =
    if id = x then (rt.graph.get x).map ({ · with state := .succeeded }) else rt.graph.get id
  edges : rt'.graph.edges = rt.graph.edges
  nodup : (x :: rt'.queued).Nodup
  queued : ∀ id, id ∈ rt.queued ↔ id = x ∨ id ∈ rt'.queued

theorem ran_complete {entry : SchedEntry} (hentry : entry ∈ rt.scheduler.queue)
    (honce : rt.queued.Nodup) {s : OrchestratorScheduler}
    (hqueue : s.queue = rt.scheduler.queue.erase entry)
    (hmark : Marks { rt with scheduler := s } rt₂ entry.taskId .running)
    (hresult : result.error.isNone = true) :
    Ran rt (complete rt₂ entry.taskId result) entry.taskId := by
  obtain ⟨hnodup, hmem⟩ := queued_erase hentry honce
  have hqueued : (complete rt₂ entry.taskId result).queued =
      (rt.scheduler.queue.erase entry).map (·.taskId) := by
    show rt₂.scheduler.queue.map (·.taskId) = _
    rw [hmark.scheduler]
    exact congrArg (List.map (·.taskId)) hqueue
  have hstate : stateOf result = .succeeded := by rw [stateOf, hresult, if_pos rfl]
  refine ⟨?_, ?_, ?_, ?_⟩
  · intro id
    rw [get_complete, hstate]
    by_cases hid : id = entry.taskId
    · rw [if_pos hid, if_pos hid, hmark.sets, if_pos rfl, Option.map_map]
      rfl
    · rw [if_neg hid, if_neg hid, hmark.sets, if_neg hid]
  · rw [edges_complete, hmark.edges]
  · rw [hqueued]
    exact hnodup
  · intro id
    rw [hqueued]
    exact hmem id

theorem Ran.dep_iff (hran : Ran rt rt₁ x) (h : JobInv J rt done) (a b : TaskId) :
    rt₁.graph.Dep a b ↔ J.dep a b := by
  have hsame : rt₁.graph.Dep = rt.graph.Dep := by
    unfold TaskGraph.Dep TaskGraph.arcs
    rw [hran.edges]
  rw [hsame]
  exact h.dep a b

/-- What has succeeded is now `done` and `x`. -/
theorem Ran.succeeded_iff (hran : Ran rt rt₁ x) (h : JobInv J rt done) {id : TaskId}
    (hid : id ∈ J.ids) :
    (∃ node, rt₁.graph.get id = some node ∧ node.state = .succeeded) ↔ id ∈ done ++ [x] := by
  rw [hran.get id, List.mem_append, List.mem_singleton]
  by_cases hidx : id = x
  · subst hidx
    obtain ⟨node, hnode, -⟩ := h.place id hid
    rw [if_pos rfl, hnode]
    exact ⟨fun _ => Or.inr rfl, fun _ => ⟨_, rfl, rfl⟩⟩
  · rw [if_neg hidx, h.succeeded_iff hid]
    exact ⟨Or.inl, fun hor => hor.resolve_right hidx⟩

theorem Ran.dependenciesSucceeded_iff (hran : Ran rt rt₁ x) (h : JobInv J rt done)
    {id : TaskId} :
    dependenciesSucceeded rt₁.graph id = true ↔ ∀ a, J.dep a id → a ∈ done ++ [x] :=
  J.dependenciesSucceeded_iff (hran.dep_iff h) fun _ hid => hran.succeeded_iff h hid

/-- The tasks that the end of `x` has freed. -/
def Freed (rt : Runtime) (x : TaskId) (ids : List TaskId) : Prop :=
  ∀ id, id ∈ ids ↔ rt.graph.Dep x id ∧ dependenciesSucceeded rt.graph id = true ∧
    ∃ node, rt.graph.get id = some node ∧ node.state = .pending

variable {ids : List TaskId} {id : TaskId}

theorem Freed.planned (hfreed : Freed rt₁ x ids) (hran : Ran rt rt₁ x) (h : JobInv J rt done)
    (hid : id ∈ ids) : id ∈ J.ids :=
  (J.joined x id ((hran.dep_iff h x id).mp ((hfreed id).mp hid).1)).2

/-- A freed task is not `x`, and was pending before. -/
theorem Freed.pending (hfreed : Freed rt₁ x ids) (hran : Ran rt rt₁ x) (hid : id ∈ ids) :
    id ≠ x ∧ ∃ node, rt.graph.get id = some node ∧ node.state = .pending := by
  obtain ⟨-, -, node, hnode, hpending⟩ := (hfreed id).mp hid
  rw [hran.get id] at hnode
  by_cases hidx : id = x
  · rw [if_pos hidx] at hnode
    obtain ⟨old, -, rfl⟩ := Option.map_eq_some_iff.mp hnode
    cases hpending
  · rw [if_neg hidx] at hnode
    exact ⟨hidx, node, hnode, hpending⟩

theorem Puts.queued_eq (hputs : Puts rt₁ rt₂ ids) : rt₂.queued = ids.reverse ++ rt₁.queued :=
  hputs.queue

theorem Puts.mem_queued_iff (hputs : Puts rt₁ rt₂ ids) :
    id ∈ rt₂.queued ↔ id ∈ ids ∨ id ∈ rt₁.queued := by
  rw [hputs.queued_eq, List.mem_append, List.mem_reverse]

/-- A task is in its place after the round. -/
def Placed (J : Job) (rt : Runtime) (done : List TaskId) (id : TaskId) : Prop :=
  ∃ node, rt.graph.get id = some node ∧ node.intent = J.intent id ∧
    Place J rt.queued done id node.state

/-- `x` itself has succeeded, so it is not put again. -/
theorem placed_self (h : JobInv J rt done) (hran : Ran rt rt₁ x) (hputs : Puts rt₁ rt₂ ids)
    (hfreed : Freed rt₁ x ids) (hx : x ∈ J.ids) : Placed J rt₂ (done ++ [x]) x := by
  obtain ⟨node, hnode, hintent, -⟩ := h.place x hx
  have hnot : x ∉ ids := fun hmem => (hfreed.pending hran hmem).1 rfl
  refine ⟨{ node with state := .succeeded }, ?_, hintent, ?_⟩
  · rw [hputs.get x, if_neg hnot, hran.get x, if_pos rfl, hnode]
    rfl
  · refine .done (List.mem_append_right _ (List.mem_singleton_self _)) ?_
    rw [hputs.mem_queued_iff]
    exact fun hor => hor.elim hnot (List.nodup_cons.mp hran.nodup).1

/-- A freed task is put: all that it waits for is done. -/
theorem placed_freed (h : JobInv J rt done) (hran : Ran rt rt₁ x) (hputs : Puts rt₁ rt₂ ids)
    (hfreed : Freed rt₁ x ids) (hput : id ∈ ids) : Placed J rt₂ (done ++ [x]) id := by
  have hid := hfreed.planned hran h hput
  obtain ⟨hidx, node, hnode, hpending⟩ := hfreed.pending hran hput
  obtain ⟨node', hnode', hintent, -⟩ := h.place id hid
  obtain rfl : node = node' := Option.some.inj (hnode.symm.trans hnode')
  refine ⟨{ node with state := .ready }, ?_, hintent, ?_⟩
  · rw [hputs.get id, if_pos hput, hran.get id, if_neg hidx, hnode]
    rfl
  · refine .queued ?_ (hputs.mem_queued_iff.mpr (Or.inl hput))
      ((hran.dependenciesSucceeded_iff h).mp ((hfreed id).mp hput).2.1)
    rw [List.mem_append, List.mem_singleton]
    exact fun hor => hor.elim (h.not_mem_of_pending hid hnode hpending).1 hidx

/-- Any other task stays where it is: what waits and was not freed waits for more than `x`. -/
theorem placed_other (h : JobInv J rt done) (hran : Ran rt rt₁ x) (hputs : Puts rt₁ rt₂ ids)
    (hfreed : Freed rt₁ x ids) (hid : id ∈ J.ids) (hidx : id ≠ x) (hput : id ∉ ids) :
    Placed J rt₂ (done ++ [x]) id := by
  obtain ⟨node, hnode, hintent, hplace⟩ := h.place id hid
  have hget : rt₁.graph.get id = some node := by
    rw [hran.get id, if_neg hidx, hnode]
  have hdone : id ∈ done ++ [x] ↔ id ∈ done := by
    rw [List.mem_append, List.mem_singleton]
    exact ⟨fun hor => hor.resolve_right hidx, Or.inl⟩
  have hqueue : id ∈ rt₂.queued ↔ id ∈ rt.queued := by
    rw [hputs.mem_queued_iff, hran.queued id]
    exact ⟨fun hor => Or.inr (hor.resolve_left hput), fun hor => Or.inr (hor.resolve_left hidx)⟩
  refine ⟨node, ?_, hintent, ?_⟩
  · rw [hputs.get id, if_neg hput, hget]
  generalize hstate : node.state = s at hplace
  cases hplace with
  | done hin hout => exact .done (hdone.mpr hin) fun hq => hout (hqueue.mp hq)
  | queued hout hin hdeps =>
      refine .queued (fun hd => hout (hdone.mp hd)) (hqueue.mpr hin) fun a ha => ?_
      exact List.mem_append_left _ (hdeps a ha)
  | waiting hout hnotin a ha hblocked =>
      have hstuck : ∃ b, J.dep b id ∧ b ∉ done ++ [x] := by
        by_contra hall
        push Not at hall
        have hdepx : J.dep x id := by
          have hax := hall a ha
          rw [List.mem_append, List.mem_singleton] at hax
          exact hax.resolve_left hblocked ▸ ha
        exact hput ((hfreed id).mpr ⟨(hran.dep_iff h x id).mpr hdepx,
          (hran.dependenciesSucceeded_iff h).mpr hall, node, hget, hstate⟩)
      obtain ⟨b, hb, hbout⟩ := hstuck
      exact .waiting (fun hd => hout (hdone.mp hd)) (fun hq => hnotin (hqueue.mp hq)) b hb hbout

/-- What the round put out of the freed tasks keeps every task in its place. -/
theorem jobInv_puts (h : JobInv J rt done) (hx : x ∈ rt.queued) (hran : Ran rt rt₁ x)
    (hputs : Puts rt₁ rt₂ ids) (hfreed : Freed rt₁ x ids) : JobInv J rt₂ (done ++ [x]) := by
  have hxids := h.queued x hx
  obtain ⟨hxdone, hxdeps⟩ := h.ready_of_queued hx
  refine ⟨?_, ?_, ?_, ?_, ?_, ?_, h.linear.concat hxdeps⟩
  · intro a b
    rw [hputs.dep_eq]
    exact hran.dep_iff h a b
  · intro id hid
    by_cases hidx : id = x
    · rw [hidx]
      exact placed_self h hran hputs hfreed hxids
    · by_cases hput : id ∈ ids
      · exact placed_freed h hran hputs hfreed hput
      · exact placed_other h hran hputs hfreed hid hidx hput
  · intro id hid
    rcases hputs.mem_queued_iff.mp hid with hid | hid
    · exact hfreed.planned hran h hid
    · exact h.queued id ((hran.queued id).mpr (Or.inr hid))
  · rw [hputs.queued_eq]
    refine (List.nodup_reverse.mpr hputs.nodup).append (List.nodup_cons.mp hran.nodup).2 ?_
    intro id hput hold
    rw [List.mem_reverse] at hput
    obtain ⟨-, node, hnode, hpending⟩ := hfreed.pending hran hput
    exact (h.not_mem_of_pending (hfreed.planned hran h hput) hnode hpending).2
      ((hran.queued id).mpr (Or.inr hold))
  · intro id hid
    rcases List.mem_append.mp hid with hid | hid
    · exact h.planned id hid
    · exact List.mem_singleton.mp hid ▸ hxids
  · refine h.once.append (List.nodup_singleton x) ?_
    intro id hid hidx
    exact hxdone (List.mem_singleton.mp hidx ▸ hid)

/-- A round that succeeds keeps every task in its place. -/
theorem jobInv_finishNode (h : JobInv J rt done) {entry : SchedEntry}
    (hentry : entry ∈ rt.scheduler.queue) {s : OrchestratorScheduler}
    (hqueue : s.queue = rt.scheduler.queue.erase entry)
    (hmark : Marks { rt with scheduler := s } rt₂ entry.taskId .running)
    (hresult : result.error.isNone = true) (clock : Nat → Nat) :
    JobInv J (finishNode clock rt₂ entry.taskId result) (done ++ [entry.taskId]) := by
  have hran := ran_complete hentry h.queueOnce hqueue hmark hresult
  obtain ⟨ids, hputs, hids⟩ :=
    puts_enqueueReadyDependents clock (complete rt₂ entry.taskId result) entry.taskId
  exact jobInv_puts h (List.mem_map_of_mem hentry) hran hputs hids

end Round

end Orchestrator

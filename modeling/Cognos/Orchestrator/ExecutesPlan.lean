/-
# `Cognos.Orchestrator.ExecutesPlan` — `submit_and_execute` runs the plan

From one round to the loop, and from the loop to a submitted plan.  `LoopRun` says what the
loop adds to what was done before: the executed tasks come after all they wait for and none
twice; at most one task was dispatched beyond them; the records are those of the tasks
dispatched; all but the last say "succeeded", and if the last one does, the job is done.
Where each dispatch lets its node through and the executor has no error, no round ends the loop,
so it goes on until the queue is empty.
-/
import Mathlib
import Cognos.Orchestrator.PlanRun
import Cognos.Orchestrator.Cancel

namespace Orchestrator

open Digraph (Linear)

variable {Time : Type}

/-! ## The loop -/

/-- The action of a node of the job, as a record has it. -/
def Job.action (J : Job) (id : TaskId) : String :=
  (((J.intent id).get? "action").bind Json.Value.asStr?).getD ""

def Job.target (J : Job) (id : TaskId) : String :=
  (((J.intent id).get? "target").bind Json.Value.asStr?).getD ""

/-- The record is one of the job's task `id`. -/
def Job.Records (J : Job) (task : TaskExecutionRecord) (id : TaskId) : Prop :=
  task.taskId = id.id.text ∧ task.action = J.action id ∧ task.target = J.target id

/-- All of the job is done, in this state. -/
def Job.Done (J : Job) (rt : Runtime) (done : List TaskId) : Prop :=
  ∀ id ∈ J.ids, id ∈ done ∧ ∃ node, rt.graph.get id = some node ∧ node.state = .succeeded

/-- The executor of the `k`-th round had no error with the node of the job that the record is
about. -/
def Job.Worked (J : Job) (worlds : Nat → RoundWorld Time) (k : Nat) (task : TaskExecutionRecord) :
    Prop :=
  ∃ id node, id ∈ J.ids ∧ J.Records task id ∧ node.intent = J.intent id ∧
    ((worlds k).execute node).error.isNone = true

/-- What the records of a loop say that did `done` in `k` rounds and then left `e`. -/
structure Recorded (J : Job) (worlds : Nat → RoundWorld Time) (k : Nat) (done : List TaskId)
    (new : List TaskExecutionRecord) (e : Execution Time) : Prop where
  records : List.Forall₂ J.Records new (dispatched e.trace)
  stops : ∀ task ∈ new.dropLast, task.status = "succeeded"
  worked : ∀ j task, new[j]? = some task → task.status = "succeeded" → J.Worked worlds (k + j) task
  success : (∀ task ∈ new, task.status = "succeeded") →
    dispatched e.trace = executed e.trace ∧ J.Done e.runtime (done ++ executed e.trace)

/-- What the loop comes to on a job of which `done` is done. -/
structure LoopRun (J : Job) (worlds : Nat → RoundWorld Time) (k : Nat) (done : List TaskId)
    (tasks : List TaskExecutionRecord) (e : Execution Time) : Prop where
  planned : ∀ id ∈ dispatched e.trace, id ∈ J.ids
  once : (done ++ executed e.trace).Nodup
  linear : Linear J.dep (done ++ executed e.trace)
  oneMore : ∃ rest, dispatched e.trace = executed e.trace ++ rest ∧ rest.length ≤ 1
  deps : ∀ rt w id traceId, Step.dispatch rt w id traceId ∈ e.trace →
    dependenciesSucceeded rt.graph id = true
  recorded : ∀ ts, e.result = some (.ok ts) → ∃ new, ts = tasks ++ new ∧
    Recorded J worlds k done new e

section Loop

variable {J : Job} {worlds : Nat → RoundWorld Time} {k : Nat} {rt : Runtime} {done : List TaskId}
  {tasks : List TaskExecutionRecord}

theorem Job.records_of {task : TaskExecutionRecord} {id : TaskId} {node : TaskNode}
    (h : Orchestrator.Records task id node) (hintent : node.intent = J.intent id) :
    J.Records task id := by
  refine ⟨h.taskId, ?_, ?_⟩
  · rw [h.action, TaskNode.field, hintent]
    rfl
  · rw [h.target, TaskNode.field, hintent]
    rfl

/-- A loop that stops before a round: nothing was added. -/
theorem loopRun_stop (h : JobInv J rt done) {result : Option (Except OrchestratorError (List
    TaskExecutionRecord))} (hdone : result = some (.ok tasks) → J.Done rt done)
    (hresult : ∀ ts, result = some (.ok ts) → ts = tasks) :
    LoopRun J worlds k done tasks (⟨result, rt, []⟩ : Execution Time) where
  planned id hid := absurd hid List.not_mem_nil
  once := by
    rw [show executed ([] : List (Step Time)) = [] from rfl, List.append_nil]
    exact h.once
  linear := by
    rw [show executed ([] : List (Step Time)) = [] from rfl, List.append_nil]
    exact h.linear
  oneMore := ⟨[], rfl, Nat.zero_le 1⟩
  deps rt w id traceId hmem := absurd hmem List.not_mem_nil
  recorded ts hts := by
    obtain rfl := hresult ts hts
    refine ⟨[], (List.append_nil _).symm, .nil, fun task ht => absurd ht List.not_mem_nil,
      fun j task ht => absurd (List.mem_of_getElem? ht) List.not_mem_nil, ?_⟩
    intro _
    refine ⟨rfl, ?_⟩
    rw [show executed ([] : List (Step Time)) = [] from rfl, List.append_nil]
    exact hdone hts

/-- What is known of the entry a round is about. -/
structure Taken (J : Job) (rt : Runtime) (done : List TaskId) (s : OrchestratorScheduler)
    (id : TaskId) (node : TaskNode) : Prop where
  planned : id ∈ J.ids
  notDone : id ∉ done
  deps : ∀ a, J.dep a id → a ∈ done
  depsSucceeded : dependenciesSucceeded ({ rt with scheduler := s } : Runtime).graph id = true
  there : ({ rt with scheduler := s } : Runtime).graph.get id = some node
  intent : node.intent = J.intent id

theorem JobInv.taken (h : JobInv J rt done) {entry : SchedEntry}
    (hentry : entry ∈ rt.scheduler.queue) (s : OrchestratorScheduler) :
    ∃ node, Taken J rt done s entry.taskId node := by
  have hqueued : entry.taskId ∈ rt.queued := List.mem_map_of_mem hentry
  have hid := h.queued _ hqueued
  obtain ⟨node, hnode, hintent, hplace⟩ := h.place _ hid
  have hwhere : entry.taskId ∉ done ∧ ∀ a, J.dep a entry.taskId → a ∈ done := by
    generalize node.state = state at hplace
    cases hplace with
    | done _ hnot => exact absurd hqueued hnot
    | queued hnot _ hdeps => exact ⟨hnot, hdeps⟩
    | waiting _ hnot => exact absurd hqueued hnot
  exact ⟨node, hid, hwhere.1, hwhere.2, h.dependenciesSucceeded_iff.mpr hwhere.2, hnode, hintent⟩

section Last

variable {s : OrchestratorScheduler} {id : TaskId} {node : TaskNode}

/-- One record, of a task that did not succeed. -/
theorem recorded_stopped {task : TaskExecutionRecord} {e : Execution Time}
    (hrecords : List.Forall₂ J.Records [task] (dispatched e.trace))
    (hstatus : task.status ≠ "succeeded") : Recorded J worlds k done [task] e where
  records := hrecords
  stops t ht := absurd ht List.not_mem_nil
  worked j t ht hsucceeded := by
    have hmem := List.mem_of_getElem? ht
    obtain rfl := List.mem_singleton.mp hmem
    exact absurd hsucceeded hstatus
  success hall := absurd (hall task (List.mem_singleton_self _)) hstatus

/-- A loop whose last round hands the task to the executor and fails, or not. -/
theorem loopRun_executed (h : JobInv J rt done) (ht : Taken J rt done s id node)
    (w : GateWorld Time) (traceId : String) (snapshot : TaskNode) (rt₂ : Runtime)
    {task : TaskExecutionRecord} (hrecord : J.Records task id)
    (hstatus : task.status ≠ "succeeded") :
    LoopRun J worlds k done tasks ⟨some (.ok (tasks ++ [task])), rt₂,
      [.dispatch { rt with scheduler := s } w id traceId, .execute id snapshot]⟩ where
  planned a ha := by
    obtain rfl := List.mem_singleton.mp ha
    exact ht.planned
  once := h.once.append (List.nodup_singleton id) fun a ha hid =>
    ht.notDone (List.mem_singleton.mp hid ▸ ha)
  linear := h.linear.concat ht.deps
  oneMore := ⟨[], rfl, Nat.zero_le 1⟩
  deps rt' w' id' traceId' hmem := by
    rcases List.mem_cons.mp hmem with heq | hmem
    · cases heq
      exact ht.depsSucceeded
    · cases List.mem_singleton.mp hmem
  recorded ts hts := by
    cases hts
    exact ⟨[task], rfl, recorded_stopped (.cons hrecord .nil) hstatus⟩

/-- A loop whose last round ends in the dispatch. -/
theorem loopRun_dispatched (h : JobInv J rt done) (ht : Taken J rt done s id node)
    (w : GateWorld Time) (traceId : String) (rt₂ : Runtime)
    {result : Except OrchestratorError (List TaskExecutionRecord)}
    (hresult : ∀ ts, result = .ok ts → ∃ task, ts = tasks ++ [task] ∧ J.Records task id ∧
      task.status ≠ "succeeded") :
    LoopRun J worlds k done tasks
      ⟨some result, rt₂, [.dispatch { rt with scheduler := s } w id traceId]⟩ where
  planned a ha := by
    obtain rfl := List.mem_singleton.mp ha
    exact ht.planned
  once := by
    show (done ++ []).Nodup
    rw [List.append_nil]
    exact h.once
  linear := by
    show Linear J.dep (done ++ [])
    rw [List.append_nil]
    exact h.linear
  oneMore := ⟨[id], rfl, le_refl 1⟩
  deps rt' w' id' traceId' hmem := by
    cases List.mem_singleton.mp hmem
    exact ht.depsSucceeded
  recorded ts hts := by
    obtain ⟨task, rfl, hrecord, hstatus⟩ := hresult ts (Option.some.inj hts)
    exact ⟨[task], rfl, recorded_stopped (.cons hrecord .nil) hstatus⟩

/-- A round that succeeds, and the loop after it. -/
theorem loopRun_succeeded (htaken : Taken J rt done s id node) (w : GateWorld Time)
    (traceId : String) (snapshot : TaskNode) {task : TaskExecutionRecord}
    (hrecord : J.Records task id)
    (hstatus : task.status = "succeeded") (hintent : snapshot.intent = J.intent id)
    (hworked : ((worlds k).execute snapshot).error.isNone = true) {e : Execution Time}
    (h : LoopRun J worlds (k + 1) (done ++ [id]) (tasks ++ [task]) e) :
    LoopRun J worlds k done tasks { e with
      trace := [.dispatch { rt with scheduler := s } w id traceId, .execute id snapshot] ++
        e.trace } := by
  have happend : done ++ (id :: executed e.trace) = done ++ [id] ++ executed e.trace := by simp
  refine ⟨?_, ?_, ?_, ?_, ?_, ?_⟩
  · intro a ha
    rcases List.mem_cons.mp ha with rfl | ha
    · exact htaken.planned
    · exact h.planned a ha
  · show (done ++ (id :: executed e.trace)).Nodup
    rw [happend]
    exact h.once
  · show Linear J.dep (done ++ (id :: executed e.trace))
    rw [happend]
    exact h.linear
  · obtain ⟨rest, hrest, hlen⟩ := h.oneMore
    refine ⟨rest, ?_, hlen⟩
    show id :: dispatched e.trace = id :: executed e.trace ++ rest
    rw [hrest]
    rfl
  · intro rt' w' id' traceId' hmem
    rcases List.mem_append.mp hmem with hmem | hmem
    · rcases List.mem_cons.mp hmem with heq | hmem
      · cases heq
        exact htaken.depsSucceeded
      · cases List.mem_singleton.mp hmem
    · exact h.deps rt' w' id' traceId' hmem
  · intro ts hts
    obtain ⟨new, rfl, hnew⟩ := h.recorded ts hts
    refine ⟨task :: new, by simp, .cons hrecord hnew.records, ?_, ?_, ?_⟩
    · intro t htask
      cases new with
      | nil => exact absurd htask List.not_mem_nil
      | cons t' new =>
          rcases List.mem_cons.mp htask with rfl | htask
          · exact hstatus
          · exact hnew.stops t htask
    · intro j t ht hsucceeded
      cases j with
      | zero =>
          cases ht
          exact ⟨id, snapshot, htaken.planned, hrecord, hintent, hworked⟩
      | succ j =>
          rw [Nat.add_succ, ← Nat.succ_add]
          exact hnew.worked j t ht hsucceeded
    · intro hall
      obtain ⟨hsame, hdone⟩ := hnew.success fun t htask => hall t (List.mem_cons_of_mem _ htask)
      refine ⟨?_, ?_⟩
      · show id :: dispatched e.trace = id :: executed e.trace
        rw [hsame]
      · show J.Done e.runtime (done ++ (id :: executed e.trace))
        rw [happend]
        exact hdone

end Last

/-- What the loop comes to with a round to spend, when `done` of the job is done. -/
inductive LoopCase (J : Job) (worlds : Nat → RoundWorld Time) (traceId : String) (rounds k : Nat)
    (rt : Runtime) (done : List TaskId) (tasks : List TaskExecutionRecord) : Execution Time → Prop
  /-- Nothing is queued: all is done. -/
  | idle (hdone : J.Done rt done) :
      LoopCase J worlds traceId rounds k rt done tasks ⟨some (.ok tasks), rt, []⟩
  /-- A task succeeds, and the loop goes on. -/
  | goesOn (s : OrchestratorScheduler) (id : TaskId) (node : TaskNode) (rt₂ : Runtime)
      (task : TaskExecutionRecord) (ht : Taken J rt done s id node) (hrecord : J.Records task id)
      (hstatus : task.status = "succeeded")
      (hworked : ((worlds k).execute { node with state := .running }).error.isNone = true)
      (hinv : JobInv J rt₂ (done ++ [id])) :
      LoopCase J worlds traceId rounds k rt done tasks
        { execLoop worlds traceId rounds (k + 1) rt₂ (tasks ++ [task]) with
          trace := [.dispatch { rt with scheduler := s } (worlds k).gate id traceId,
            .execute id { node with state := .running }] ++
              (execLoop worlds traceId rounds (k + 1) rt₂ (tasks ++ [task])).trace }
  /-- The executor had a task, and it failed. -/
  | failed (s : OrchestratorScheduler) (id : TaskId) (node : TaskNode) (rt₂ : Runtime)
      (task : TaskExecutionRecord) (ht : Taken J rt done s id node) (hrecord : J.Records task id)
      (hstatus : task.status = "failed") :
      LoopCase J worlds traceId rounds k rt done tasks ⟨some (.ok (tasks ++ [task])), rt₂,
        [.dispatch { rt with scheduler := s } (worlds k).gate id traceId,
          .execute id { node with state := .running }]⟩
  | denied (s : OrchestratorScheduler) (id : TaskId) (node : TaskNode) (rt₂ : Runtime)
      (task : TaskExecutionRecord) (ht : Taken J rt done s id node) (hrecord : J.Records task id)
      (hstatus : task.status = "denied") :
      LoopCase J worlds traceId rounds k rt done tasks ⟨some (.ok (tasks ++ [task])), rt₂,
        [.dispatch { rt with scheduler := s } (worlds k).gate id traceId]⟩
  | error (s : OrchestratorScheduler) (id : TaskId) (node : TaskNode) (rt₂ : Runtime)
      (e : OrchestratorError) (ht : Taken J rt done s id node) :
      LoopCase J worlds traceId rounds k rt done tasks ⟨some (.error e), rt₂,
        [.dispatch { rt with scheduler := s } (worlds k).gate id traceId]⟩

theorem execLoop_case (worlds : Nat → RoundWorld Time) (traceId : String) (rounds k : Nat)
    (tasks : List TaskExecutionRecord) (h : JobInv J rt done) :
    LoopCase J worlds traceId rounds k rt done tasks
      (execLoop worlds traceId (rounds + 1) k rt tasks) := by
  cases hnext : rt.scheduler.next (worlds k).pick with
  | none =>
      rw [execLoop_idle hnext]
      refine .idle fun id hid => ?_
      have hempty : rt.queued = [] := by
        rw [Runtime.queued, next_eq_none hnext]
        rfl
      have hdone := h.all_done hempty hid
      exact ⟨hdone, (h.succeeded_iff hid).mpr hdone⟩
  | some next =>
      obtain ⟨entry, s⟩ := next
      obtain ⟨hentry, hqueue⟩ := next_eq_some hnext
      obtain ⟨node, ht⟩ := h.taken hentry s
      have hcase := round_case ht.there (worlds k) traceId
      generalize hround : round { rt with scheduler := s } (worlds k) entry.taskId traceId = r
        at hcase
      cases hcase with
      | finished rt₂ task result hresult hmark hstatus hrecord =>
          have hrecord := Job.records_of hrecord ht.intent
          by_cases hok : result.error.isNone = true
          · rw [hok] at hround
            rw [if_pos hok] at hstatus
            rw [execLoop_goesOn hnext hround]
            have hinv := jobInv_finishNode h hentry hqueue hmark hok (worlds k).clock
            exact .goesOn s entry.taskId node _ task ht hrecord hstatus (hresult ▸ hok) hinv
          · rw [if_neg hok] at hstatus
            rw [Bool.not_eq_true] at hok
            rw [hok] at hround
            rw [execLoop_stops hnext hround (by rw [hstatus]; decide)]
            exact .failed s entry.taskId node _ task ht hrecord hstatus
      | denied rt₂ task hstatus hrecord =>
          rw [execLoop_stops hnext hround (by rw [hstatus]; decide)]
          exact .denied s entry.taskId node rt₂ task ht (Job.records_of hrecord ht.intent) hstatus
      | error rt₂ e =>
          rw [execLoop_error hnext hround]
          exact .error s entry.taskId node rt₂ e ht

/-- The loop, from any state in which every task of the job is in its place. -/
theorem loopRun_execLoop (worlds : Nat → RoundWorld Time) (traceId : String) (rounds k : Nat)
    (h : JobInv J rt done) :
    LoopRun J worlds k done tasks (execLoop worlds traceId rounds k rt tasks) := by
  induction rounds generalizing k rt done tasks with
  | zero =>
      exact loopRun_stop h (fun heq => by cases heq) fun ts heq => by cases heq
  | succ rounds ih =>
      have hcase := execLoop_case worlds traceId rounds k tasks h
      generalize execLoop worlds traceId (rounds + 1) k rt tasks = e at hcase
      cases hcase with
      | idle hdone => exact loopRun_stop h (fun _ => hdone) fun ts heq => by cases heq; rfl
      | goesOn s id node rt₂ task ht hrecord hstatus hworked hinv =>
          exact loopRun_succeeded ht _ _ { node with state := .running } hrecord hstatus ht.intent
            hworked (ih (k + 1) hinv)
      | failed s id node rt₂ task ht hrecord hstatus =>
          exact loopRun_executed h ht _ _ _ _ hrecord (by rw [hstatus]; decide)
      | denied s id node rt₂ task ht hrecord hstatus =>
          refine loopRun_dispatched h ht _ _ _ fun ts heq => ?_
          cases heq
          exact ⟨task, rfl, hrecord, by rw [hstatus]; decide⟩
      | error s id node rt₂ e ht =>
          exact loopRun_dispatched h ht _ _ _ fun ts heq => by cases heq

/-- With a round for every task not yet done and one more, the loop comes to an end. -/
theorem isSome_execLoop (worlds : Nat → RoundWorld Time) (traceId : String) {rounds : Nat}
    (k : Nat) (h : JobInv J rt done) (hrounds : J.ids.length - done.length < rounds) :
    (execLoop worlds traceId rounds k rt tasks).result.isSome = true := by
  induction rounds generalizing k rt done tasks with
  | zero => exact absurd hrounds (Nat.not_lt_zero _)
  | succ rounds ih =>
      have hcase := execLoop_case worlds traceId rounds k tasks h
      generalize execLoop worlds traceId (rounds + 1) k rt tasks = e at hcase
      cases hcase with
      | idle | failed | denied | error => rfl
      | goesOn s id node rt₂ task ht hrecord hstatus hworked hinv =>
          have hlen := hinv.length_le
          rw [List.length_append, List.length_singleton] at hlen
          refine ih (k + 1) hinv ?_
          rw [List.length_append, List.length_singleton]
          omega

end Loop

/-! ## The job of a plan -/

section Plan

variable {rt rt₁ rt₂ : Runtime} {w : SubmitWorld} {plan : DecompositionPlan} {m : Nat}

/-- The ids of a plan's nodes. -/
def plannedIds (w : SubmitWorld) (plan : DecompositionPlan) : List TaskId :=
  (List.range plan.nodes.length).map (minted w)

theorem mem_plannedIds {id : TaskId} :
    id ∈ plannedIds w plan ↔ ∃ i : Fin plan.nodes.length, id = minted w i := by
  simp only [plannedIds, List.mem_map, List.mem_range]
  constructor
  · rintro ⟨i, hi, rfl⟩
    exact ⟨⟨i, hi⟩, rfl⟩
  · rintro ⟨i, rfl⟩
    exact ⟨i, i.isLt, rfl⟩

theorem fresh_of_empty (hempty : rt.graph = .new)
    (hdistinct : ∀ i < plan.nodes.length, ∀ j < plan.nodes.length,
      minted w i = minted w j → i = j) :
    FreshIds rt w plan.nodes.length := by
  refine ⟨fun i _ => ?_, hdistinct⟩
  rw [hempty]
  rfl

/-- In a graph that was empty, there are the nodes of the plan only. -/
theorem mem_plannedIds_of_get (hempty : rt.graph = .new) (hwired : Wired rt w plan m rt₁)
    {id : TaskId} {node : TaskNode} (hnode : rt₁.graph.get id = some node) :
    id ∈ plannedIds w plan := by
  refine mem_plannedIds.mpr (minted_of_new hwired ?_ hnode)
  rw [hempty]
  rfl

/-- What the nodes and edges of a plan are to the loop. -/
def jobOf (hempty : rt.graph = .new) (hwired : Wired rt w plan m rt₁) : Job where
  ids := plannedIds w plan
  dep := rt₁.graph.Dep
  intent id := ((rt₁.graph.get id).map (·.intent)).getD .null
  joined a b hab := by
    have hwf := hwired.wf (by rw [hempty]; exact TaskGraph.wf_new)
    obtain ⟨ha, hb⟩ := hwf.joined a b hab
    obtain ⟨na, hna⟩ := Option.isSome_iff_exists.mp ha
    obtain ⟨nb, hnb⟩ := Option.isSome_iff_exists.mp hb
    exact ⟨mem_plannedIds_of_get hempty hwired hna, mem_plannedIds_of_get hempty hwired hnb⟩
  wf := Digraph.Arc.wellFounded
    (hwired.wf (by rw [hempty]; exact TaskGraph.wf_new)).acyclic

/-- After a submit on an empty graph and queue, the roots are queued and the rest waits. -/
theorem jobInv_placed (hempty : rt.graph = .new) (hqueue : rt.scheduler = .new)
    (hwired : Wired rt w plan m rt₁) (hfresh : FreshIds rt w plan.nodes.length)
    {walk : HashOrder TaskId} {ids : List TaskId} (hready : rt₁.graph.readyTasks walk = ids)
    (hputs : Puts rt₁ rt₂ ids) : JobInv (jobOf hempty hwired) rt₂ [] := by
  have hwf := hwired.wf (by rw [hempty]; exact TaskGraph.wf_new)
  have hnone : rt₁.queued = [] := by
    rw [Runtime.queued, hwired.scheduler, hqueue]
    rfl
  have hqueued : rt₂.queued = ids.reverse := by
    have h := hputs.queue
    rw [show rt₁.scheduler.queue.map (·.taskId) = [] from hnone, List.append_nil] at h
    exact h
  -- a dependency of a planned node is a planned node, so pending
  have hpending : ∀ a b, rt₁.graph.Dep a b →
      TaskGraph.terminal ((rt₁.graph.get a).map (·.state)) = false := by
    intro a b hab
    obtain ⟨n, hn⟩ := Option.isSome_iff_exists.mp (hwf.joined a b hab).1
    obtain ⟨i, rfl⟩ := mem_plannedIds.mp (mem_plannedIds_of_get hempty hwired hn)
    rw [get_wired_new hwired hfresh i]
    rfl
  refine ⟨fun a b => by rw [hputs.dep_eq]; rfl, ?_, ?_, ?_,
    fun id hid => absurd hid List.not_mem_nil, .nil, .nil⟩
  · intro id hid
    obtain ⟨i, rfl⟩ := mem_plannedIds.mp hid
    have hnode := get_wired_new hwired hfresh i
    have hintent : (jobOf hempty hwired).intent (minted w i) =
        (placedNode rt w i (plan.nodes.get i).subTask).intent := by
      show ((rt₁.graph.get (minted w i)).map (·.intent)).getD .null = _
      rw [hnode]
      rfl
    by_cases hput : minted w i ∈ ids
    · refine ⟨{ placedNode rt w i (plan.nodes.get i).subTask with state := .ready }, ?_,
        hintent.symm, ?_⟩
      · rw [hputs.get, if_pos hput, hnode]
        rfl
      have hqueue : minted w i ∈ rt₂.queued := by
        rw [hqueued]
        exact List.mem_reverse.mpr hput
      refine .queued List.not_mem_nil hqueue ?_
      intro a ha
      obtain ⟨node, hnode', -, hterminal⟩ := TaskGraph.mem_readyTasks.mp (hready ▸ hput)
      rw [hwf.keyed _ node hnode'] at hterminal
      exact absurd (hterminal a ha) (by rw [hpending a _ ha]; exact Bool.false_ne_true)
    · refine ⟨_, by rw [hputs.get, if_neg hput, hnode], hintent.symm, ?_⟩
      have hblocked : ∃ a, rt₁.graph.Dep a (minted w i) := by
        by_contra hfree
        refine hput (hready ▸ TaskGraph.mem_readyTasks.mpr ⟨_, hnode, rfl, fun a ha => ?_⟩)
        exact absurd ⟨a, ha⟩ hfree
      obtain ⟨a, ha⟩ := hblocked
      refine .waiting List.not_mem_nil ?_ a ha List.not_mem_nil
      rw [hqueued]
      exact fun hmem => hput (List.mem_reverse.mp hmem)
  · intro id hid
    rw [hqueued, List.mem_reverse] at hid
    obtain ⟨node, hnode, -⟩ := hputs.pending id hid
    exact mem_plannedIds_of_get hempty hwired hnode
  · rw [hqueued]
    exact List.nodup_reverse.mpr hputs.nodup

end Plan

/-! ## Runs in which nothing goes wrong -/

instance (d : Dispatch) : Decidable d.Dispatched :=
  decidable_of_iff ((match d.result with
    | .ok (.dispatched, _) => true
    | _ => false) = true) (by
      unfold Dispatch.Dispatched
      rcases d.result with e | ⟨outcome, note⟩
      · simp
      · cases outcome <;> simp)

/-- A dispatch lets its node through. -/
def Step.Granted : Step Time → Prop
  | .dispatch rt w id traceId => (dispatchNode rt w id traceId).Dispatched
  | .execute _ _ => True

instance : DecidablePred (@Step.Granted Time)
  | .dispatch rt w id traceId =>
      inferInstanceAs (Decidable (dispatchNode rt w id traceId).Dispatched)
  | .execute _ _ => inferInstanceAs (Decidable True)

def Grants (tr : List (Step Time)) : Prop := ∀ step ∈ tr, step.Granted

/-- The executor has no error, in any round. -/
def Works (worlds : Nat → RoundWorld Time) : Prop :=
  ∀ k node, ((worlds k).execute node).error.isNone = true

theorem dispatch_mem_round {rt : Runtime} {id : TaskId} {node : TaskNode}
    (hnode : rt.graph.get id = some node) (w : RoundWorld Time) (traceId : String) :
    Step.dispatch rt w.gate id traceId ∈ (round rt w id traceId).trace := by
  have hcase := round_case hnode w traceId
  generalize round rt w id traceId = r at hcase
  cases hcase with
  | finished => exact List.mem_cons_self
  | denied => exact List.mem_cons_self
  | error => exact List.mem_cons_self

/-- A round that is let through and has no error ends well. -/
theorem exists_round_ok {rt : Runtime} {id : TaskId} {node : TaskNode}
    (hnode : rt.graph.get id = some node) {w : RoundWorld Time} {traceId : String}
    (hgrants : (dispatchNode rt w.gate id traceId).Dispatched)
    (hworks : ∀ node, (w.execute node).error.isNone = true) :
    ∃ task, (round rt w id traceId).result = .ok (task, true) := by
  obtain ⟨note, hresult⟩ := hgrants
  cases dispatchNode_case rt w.gate id traceId with
  | runs _ hmark _ =>
      obtain ⟨task, -, -, hround⟩ := round_of_dispatched hnode hresult hmark
      refine ⟨task, ?_⟩
      rw [hround, hworks]
  | fails hout _ => exact absurd ⟨note, hresult⟩ hout.not_dispatched
  | errs hout _ =>
      obtain ⟨e, he⟩ := hout
      rw [hresult] at he
      cases he

section Loop

variable {J : Job} {worlds : Nat → RoundWorld Time} {rt : Runtime} {done : List TaskId}
  {tasks : List TaskExecutionRecord} {traceId : String}

/-- The steps of the first round are steps of the loop. -/
theorem mem_execLoop {entry : SchedEntry} {s : OrchestratorScheduler} {k : Nat}
    (hnext : rt.scheduler.next (worlds k).pick = some (entry, s)) (rounds : Nat) {step : Step Time}
    (hstep : step ∈ (round { rt with scheduler := s } (worlds k) entry.taskId traceId).trace) :
    step ∈ (execLoop worlds traceId (rounds + 1) k rt tasks).trace := by
  simp only [execLoop, hnext]
  split
  · exact hstep
  · split_ifs
    · exact hstep
    · exact List.mem_append_left _ hstep

/-- What the records of a granted loop say. -/
theorem execLoop_granted (hworks : Works worlds) (rounds k : Nat) (h : JobInv J rt done)
    (hgrants : Grants (execLoop worlds traceId rounds k rt tasks).trace)
    {result : Except OrchestratorError (List TaskExecutionRecord)}
    (hresult : (execLoop worlds traceId rounds k rt tasks).result = some result) :
    ∃ new, result = .ok (tasks ++ new) ∧ ∀ task ∈ new, task.status = "succeeded" := by
  induction rounds generalizing k rt done tasks with
  | zero => cases hresult
  | succ rounds ih =>
      cases hnext : rt.scheduler.next (worlds k).pick with
      | none =>
          simp only [execLoop, hnext] at hresult
          refine ⟨[], ?_, fun task ht => absurd ht List.not_mem_nil⟩
          rw [List.append_nil]
          exact (Option.some.inj hresult).symm
      | some next =>
          obtain ⟨entry, s⟩ := next
          obtain ⟨hentry, hqueue⟩ := next_eq_some hnext
          obtain ⟨node, ht⟩ := h.taken hentry s
          have hdispatched := hgrants _
            (mem_execLoop hnext rounds (dispatch_mem_round ht.there (worlds k) traceId))
          obtain ⟨task, hok⟩ := exists_round_ok ht.there hdispatched (hworks k)
          have hcase := round_case ht.there (worlds k) traceId
          simp only [execLoop, hnext, hok] at hresult hgrants
          generalize round { rt with scheduler := s } (worlds k) entry.taskId traceId = r at *
          cases hcase with
          | finished rt₂ task' taskResult htaskResult hmark hstatus hrecord =>
              obtain ⟨rfl, htrue⟩ := Prod.mk.inj (Except.ok.inj hok)
              rw [htrue, if_pos rfl] at hstatus
              have hinv := jobInv_finishNode h hentry hqueue hmark htrue (worlds k).clock
              obtain ⟨new, hnew, hall⟩ := ih (k + 1) hinv
                (fun step hmem => hgrants step (List.mem_append_right _ hmem)) hresult
              refine ⟨task' :: new, ?_, ?_⟩
              · rw [hnew, List.append_assoc]
                rfl
              · intro t htask
                rcases List.mem_cons.mp htask with rfl | htask
                · exact hstatus
                · exact hall t htask
          | denied rt₂ task' => cases hok
          | error rt₂ e => cases hok

end Loop

/-! ## Submit and execute -/

/-- The record is one of the plan's node `id`. -/
def PlanRecords (w : SubmitWorld) (plan : DecompositionPlan) (task : TaskExecutionRecord)
    (id : TaskId) : Prop :=
  ∃ i : Fin plan.nodes.length, id = minted w i ∧ task.taskId = id.id.text ∧
    task.action = (plan.nodes.get i).subTask.action ∧
    task.target = (plan.nodes.get i).subTask.target

theorem forall₂_imp_mem {α β : Type} {R S : α → β → Prop} {as : List α} {bs : List β}
    (h : List.Forall₂ R as bs) (himp : ∀ a, ∀ b ∈ bs, R a b → S a b) : List.Forall₂ S as bs := by
  induction h with
  | nil => exact .nil
  | cons hab _ ih =>
      exact .cons (himp _ _ List.mem_cons_self hab)
        (ih fun a b hb => himp a b (List.mem_cons_of_mem _ hb))

/-- The run of a plan, in a world with `w.rounds` rounds to spend. -/
structure RunsPlan (plan : DecompositionPlan) (w : ExecWorld Time)
    (out : Option (Except OrchestratorError ExecutionReport) × Runtime × List (Step Time)) :
    Prop where
  /-- A round for every node and one more is enough. -/
  ends : plan.nodes.length < w.rounds → out.1.isSome = true
  planned : ∀ id ∈ executed out.2.2, ∃ i : Fin plan.nodes.length, id = minted w.submit i
  once : (executed out.2.2).Nodup
  /-- What waits for another node is executed after it, ... -/
  ordered : ∀ e ∈ plan.edges, ∀ l r, executed out.2.2 = l ++ minted w.submit e.2 :: r →
    minted w.submit e.1 ∈ l
  /-- ... and dispatched when all it waits for has succeeded. -/
  succeeded : ∀ s gate id traceId, Step.dispatch s gate id traceId ∈ out.2.2 →
    dependenciesSucceeded s.graph id = true
  /-- At most one node, the last, is dispatched and not executed. -/
  oneMore : ∃ rest, dispatched out.2.2 = executed out.2.2 ++ rest ∧ rest.length ≤ 1
  records : ∀ report, out.1 = some (.ok report) →
    List.Forall₂ (PlanRecords w.submit plan) report.tasks (dispatched out.2.2)
  stops : ∀ report, out.1 = some (.ok report) →
    ∀ task ∈ report.tasks.dropLast, task.status = "succeeded"
  /-- A record says "succeeded" where the executor had no error with the node. -/
  worked : ∀ report, out.1 = some (.ok report) → ∀ k task, report.tasks[k]? = some task →
    task.status = "succeeded" → ∃ (i : Fin plan.nodes.length) (node : TaskNode),
      PlanRecords w.submit plan task (minted w.submit i) ∧
        node.intent = intentValue (plan.nodes.get i).subTask ∧
        ((w.round k).execute node).error.isNone = true
  success : ∀ report, out.1 = some (.ok report) → report.success = true →
    (∀ task ∈ report.tasks, task.status = "succeeded") ∧
      dispatched out.2.2 = executed out.2.2 ∧ ∀ i : Fin plan.nodes.length,
      minted w.submit i ∈ executed out.2.2 ∧
        ∃ node, out.2.1.graph.get (minted w.submit i) = some node ∧ node.state = .succeeded
  /-- A run that begins, lets all its nodes through and has no error ends with success: no node
  is left out. -/
  complete : plan.nodes.length < w.rounds → out.2.2 ≠ [] → Grants out.2.2 → Works w.round →
    ∃ report, out.1 = some (.ok report) ∧ report.success = true

theorem runsPlan_error (plan : DecompositionPlan) (w : ExecWorld Time) (e : OrchestratorError)
    (rt : Runtime) : RunsPlan plan w (some (.error e), rt, ([] : List (Step Time))) where
  ends _ := rfl
  planned id hid := absurd hid List.not_mem_nil
  once := .nil
  ordered e _ l r h := by cases l <;> cases h
  succeeded s gate id traceId hmem := absurd hmem List.not_mem_nil
  oneMore := ⟨[], rfl, Nat.zero_le 1⟩
  records report h := by cases h
  stops report h := by cases h
  worked report h := by cases h
  success report h := by cases h
  complete _ hbegun := absurd rfl hbegun

theorem report_success {intentId traceId : String} {tasks : List TaskExecutionRecord}
    (h : (report intentId traceId tasks).success = true) :
    ∀ task ∈ tasks, task.status = "succeeded" := by
  simp only [report, Bool.and_eq_true, List.all_eq_true, beq_iff_eq] at h
  exact h.2

/-- The loop of the job of a plan, reported. -/
theorem runsPlan_of_loopRun {rt rt₁ : Runtime} {w : ExecWorld Time} {plan : DecompositionPlan}
    {m : Nat} (hempty : rt.graph = .new) (hwired : Wired rt w.submit plan m rt₁)
    (hfresh : FreshIds rt w.submit plan.nodes.length) (hall : plan.edges.take m = plan.edges)
    {e : Execution Time} (h : LoopRun (jobOf hempty hwired) w.round 0 [] [] e)
    (hends : plan.nodes.length < w.rounds → e.result.isSome = true) (intentId traceId : String)
    (hcomplete : plan.nodes.length < w.rounds → Grants e.trace → Works w.round →
      ∃ tasks, e.result = some (.ok tasks) ∧ (report intentId traceId tasks).success = true) :
    RunsPlan plan w
      (e.result.map (·.map (report intentId traceId)), e.runtime, e.trace) := by
  have hreport : ∀ r, e.result.map (·.map (report intentId traceId)) = some (.ok r) →
      ∃ tasks, r = report intentId traceId tasks ∧
        Recorded (jobOf hempty hwired) w.round 0 [] tasks e := by
    intro r hr
    obtain ⟨result, hresult, hmap⟩ := Option.map_eq_some_iff.mp hr
    cases result with
    | error e => cases hmap
    | ok tasks =>
        obtain ⟨new, rfl, hnew⟩ := h.recorded tasks hresult
        cases hmap
        exact ⟨_, rfl, hnew⟩
  have hintent : ∀ i : Fin plan.nodes.length, (jobOf hempty hwired).intent (minted w.submit i) =
      intentValue (plan.nodes.get i).subTask := by
    intro i
    show ((rt₁.graph.get (minted w.submit i)).map (·.intent)).getD .null = _
    rw [get_wired_new hwired hfresh i]
    rfl
  have hlabel : ∀ task, ∀ i : Fin plan.nodes.length,
      (jobOf hempty hwired).Records task (minted w.submit i) →
        PlanRecords w.submit plan task (minted w.submit i) := by
    rintro task i ⟨htask, haction, htarget⟩
    refine ⟨i, rfl, htask, ?_, ?_⟩
    · rw [haction, Job.action, hintent]
      rfl
    · rw [htarget, Job.target, hintent]
      rfl
  obtain ⟨rest, hrest, hlen⟩ := h.oneMore
  refine ⟨fun hr => ?_, ?_, h.once, ?_, h.deps, ⟨rest, hrest, hlen⟩, ?_, ?_, ?_, ?_,
    fun hr _ hgrants hworks => ?_⟩
  · rw [Option.isSome_map]
    exact hends hr
  · intro id hid
    refine mem_plannedIds.mp (h.planned id ?_)
    rw [hrest]
    exact List.mem_append_left _ hid
  · intro p hp l r heq
    have hdep : rt₁.graph.Dep (minted w.submit p.1) (minted w.submit p.2) :=
      (dep_wired hwired).mpr (Or.inr ⟨p, by rw [hall]; exact hp, rfl, rfl⟩)
    exact h.linear l (minted w.submit p.2) r heq _ hdep
  · intro r hr
    obtain ⟨tasks, rfl, hrecorded⟩ := hreport r hr
    show List.Forall₂ _ tasks (dispatched e.trace)
    refine forall₂_imp_mem hrecorded.records fun task id hid hrec => ?_
    obtain ⟨i, rfl⟩ := mem_plannedIds.mp (h.planned id hid)
    exact hlabel task i hrec
  · intro r hr
    obtain ⟨tasks, rfl, hrecorded⟩ := hreport r hr
    exact hrecorded.stops
  · intro r hr k task hk hstatus
    obtain ⟨tasks, rfl, hrecorded⟩ := hreport r hr
    obtain ⟨id, node, hid, hrec, hnode, hnone⟩ := hrecorded.worked k task hk hstatus
    obtain ⟨i, rfl⟩ := mem_plannedIds.mp hid
    rw [Nat.zero_add] at hnone
    exact ⟨i, node, hlabel task i hrec, hnode.trans (hintent i), hnone⟩
  · intro r hr hsuccess
    obtain ⟨tasks, rfl, hrecorded⟩ := hreport r hr
    have hall := report_success hsuccess
    obtain ⟨hsame, hdone⟩ := hrecorded.success hall
    exact ⟨hall, hsame, fun i => hdone _ (mem_plannedIds.mpr ⟨i, rfl⟩)⟩
  · obtain ⟨tasks, hresult, hsuccess⟩ := hcomplete hr hgrants hworks
    exact ⟨_, by rw [hresult]; rfl, hsuccess⟩

/-- The loop of a plan with nothing going wrong reports success. -/
theorem success_of_granted {rt rt₁ rt₂ : Runtime} {w : ExecWorld Time} {plan : DecompositionPlan}
    {m : Nat} (hempty : rt.graph = .new) (hwired : Wired rt w.submit plan m rt₁)
    {root : TaskId} {roots : List TaskId}
    (hready : rt₁.graph.readyTasks w.submit.nodeWalk = root :: roots)
    (hinv : JobInv (jobOf hempty hwired) rt₂ []) (intentId : String) {traceId : String}
    (hgrants : Grants (execLoop w.round traceId w.rounds 0 rt₂ []).trace) (hworks : Works w.round)
    (hends : (execLoop w.round traceId w.rounds 0 rt₂ []).result.isSome = true) :
    ∃ tasks, (execLoop w.round traceId w.rounds 0 rt₂ []).result = some (.ok tasks) ∧
      (report intentId traceId tasks).success = true := by
  obtain ⟨result, hresult⟩ := Option.isSome_iff_exists.mp hends
  obtain ⟨new, rfl, hsucceeded⟩ := execLoop_granted hworks w.rounds 0 hinv hgrants hresult
  have hloop : LoopRun (jobOf hempty hwired) w.round 0 [] [] _ :=
    loopRun_execLoop w.round traceId w.rounds 0 hinv
  obtain ⟨new', hnew', hrecorded⟩ := hloop.recorded _ hresult
  obtain rfl := List.append_cancel_left hnew'
  obtain ⟨hsame, hdone⟩ := hrecorded.success hsucceeded
  -- the root is executed, so there is a record
  have hmem : root ∈ plannedIds w.submit plan := by
    obtain ⟨node, hnode, -⟩ := TaskGraph.get_of_mem_readyTasks
      (hready ▸ List.mem_cons_self : root ∈ rt₁.graph.readyTasks w.submit.nodeWalk)
    exact mem_plannedIds_of_get hempty hwired hnode
  have hlength := hrecorded.records.length_eq
  rw [hsame] at hlength
  have hne : new ≠ [] := by
    rintro rfl
    have hnil := List.length_eq_zero_iff.mp hlength.symm
    have hin := (hdone root hmem).1
    rw [hnil] at hin
    exact absurd hin List.not_mem_nil
  refine ⟨[] ++ new, hresult, ?_⟩
  show (!([] ++ new).isEmpty && ([] ++ new).all (·.status == "succeeded")) = true
  rw [List.nil_append, Bool.and_eq_true, List.all_eq_true]
  refine ⟨?_, fun task ht => beq_iff_eq.mpr (hsucceeded task ht)⟩
  rw [Bool.not_eq_true', List.isEmpty_eq_false_iff]
  exact hne

/-- The run of a plan whose ids are distinct. -/
theorem runsPlan_of_distinct (rt : Runtime) (w : ExecWorld Time)
    (utterance userId traceId : String) {plan : DecompositionPlan}
    (hplan : resolveDecomposition (resetExecutionState rt) w.submit
      (Intent.new w.intentId userId utterance) = .ok plan)
    (hdistinct : ∀ i < plan.nodes.length, ∀ j < plan.nodes.length,
      minted w.submit i = minted w.submit j → i = j) :
    RunsPlan plan w (submitAndExecute rt w utterance userId traceId) := by
  have hempty : (resetExecutionState rt).graph = .new := rfl
  have hqueue : (resetExecutionState rt).scheduler = .new := rfl
  have hfresh := fresh_of_empty hempty hdistinct
  have hcase := submit_case (resetExecutionState rt) w.submit
    (Intent.new w.intentId userId utterance)
  unfold submitAndExecute
  simp only
  generalize submit (resetExecutionState rt) w.submit (Intent.new w.intentId userId utterance) =
    result at hcase
  cases hcase with
  | noPlan e hnone =>
      rw [hplan] at hnone
      cases hnone
  | stopped e plan' m rt₁ hplan' hwired => exact runsPlan_error plan w e rt₁
  | placed plan' m rt₁ rt₂ root roots hplan' hwired hall hready hputs =>
      obtain rfl : plan = plan' := Except.ok.inj (hplan.symm.trans hplan')
      have hinv := jobInv_placed hempty hqueue hwired hfresh hready hputs
      have hends : plan.nodes.length < w.rounds →
          (execLoop w.round traceId w.rounds 0 rt₂ []).result.isSome = true := by
        intro hrounds
        refine isSome_execLoop w.round traceId 0 hinv ?_
        show (plannedIds w.submit plan).length - 0 < w.rounds
        rw [plannedIds, List.length_map, List.length_range]
        exact hrounds
      exact runsPlan_of_loopRun hempty hwired hfresh hall
        (loopRun_execLoop w.round traceId w.rounds 0 hinv) hends _ _ fun hrounds hgrants hworks =>
          success_of_granted hempty hwired hready hinv _ hgrants hworks (hends hrounds)

/-- Every plan: whatever HAL, the human and the executor answer, the loop ends, and runs the
plan in order, each node at most once, up to the first that does not succeed. -/
theorem submitAndExecute_runsPlan (rt : Runtime) (w : ExecWorld Time)
    (utterance userId traceId : String) {plan : DecompositionPlan}
    (hplan : resolveDecomposition (resetExecutionState rt) w.submit
      (Intent.new w.intentId userId utterance) = .ok plan)
    (hdistinct : ∀ i < plan.nodes.length, ∀ j < plan.nodes.length,
      minted w.submit i = minted w.submit j → i = j) :
    RunsPlan plan w (submitAndExecute rt w utterance userId traceId) :=
  runsPlan_of_distinct rt w utterance userId traceId hplan hdistinct

/-! "open notes": look up, then open, with nobody to ask. -/

def openNotesWorld : ExecWorld Unit :=
  { intentId := Uuid.numbered 9
    submit := offline
    rounds := 3
    round := fun _ => ⟨unanswered, 0, fun _ => ⟨.null, none⟩, fun k => k⟩ }

theorem distinct_openNotes :
    ∀ i < (decomposeLocally (Intent.new (Uuid.numbered 9) "ana" "open notes")).nodes.length,
    ∀ j < (decomposeLocally (Intent.new (Uuid.numbered 9) "ana" "open notes")).nodes.length,
      minted openNotesWorld.submit i = minted openNotesWorld.submit j → i = j := by
  rw [length_openNotes]
  decide

theorem submitAndExecute_runsPlan_openNotes :
    RunsPlan (decomposeLocally (Intent.new (Uuid.numbered 9) "ana" "open notes")) openNotesWorld
      (submitAndExecute Runtime.new openNotesWorld "open notes" "ana" "trace") :=
  submitAndExecute_runsPlan Runtime.new openNotesWorld "open notes" "ana" "trace" rfl
    distinct_openNotes

end Orchestrator

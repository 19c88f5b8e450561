/-
# `Cognos.Orchestrator.InFlight` — what is left in flight

`next` puts a task among those in flight and `complete` takes it off again.  Of the ways a round
of `submit_and_execute` can end only one calls `complete`: the task was let through, and the
executor had it.  A task that is denied, or whose dispatch ends in an error, stays in flight; its
node has failed, or is as it was.  No node is left waiting for a human: the wait is part of the
dispatch.

    roundEnds       a round on a task that is let through, and on one that is not
    loopEnds        the loop: nothing in flight at its top, and so after its last round, unless
                    that one stopped a task
    balanced_iff    a run balances exactly when all it dispatched was let through
-/
import Mathlib
import Cognos.Orchestrator.ExecutesPlan

namespace Orchestrator

variable {Time : Type}

/-! ## What it should come to -/

/-- The node of the task waits for a human. -/
def LeftAwaiting (rt : Runtime) (id : TaskId) : Prop :=
  ∃ node, rt.graph.get id = some node ∧ node.state = .awaitingHal

/-- What was dispatched and does not wait for a human has been completed, so that those in flight
are those that wait. -/
structure Balanced (rt : Runtime) (tr : List (Step Time)) : Prop where
  completed : ∀ id ∈ dispatched tr, ¬ LeftAwaiting rt id → id ∉ rt.scheduler.inFlight
  inFlight : ∀ id, id ∈ rt.scheduler.inFlight ↔ LeftAwaiting rt id

/-- Every task that was dispatched was let through. -/
def AllAdmitted (tr : List (Step Time)) : Prop :=
  ∀ rt w id traceId, Step.dispatch rt w id traceId ∈ tr → Admitted rt w id traceId

/-- Nothing is in flight, nothing waits for a human, and the tasks in the queue are there. -/
structure AtRest (rt : Runtime) : Prop where
  inFlight : rt.scheduler.inFlight = []
  none : ∀ id, ¬ LeftAwaiting rt id
  there : ∀ id ∈ rt.queued, (rt.graph.get id).isSome = true

theorem AtRest.balanced {rt : Runtime} (h : AtRest rt) (tr : List (Step Time)) :
    Balanced rt tr := by
  refine ⟨fun id _ _ => ?_, fun id => iff_of_false ?_ (h.none id)⟩
  · rw [h.inFlight]
    exact List.not_mem_nil
  · rw [h.inFlight]
    exact List.not_mem_nil

/-- A task in flight that does not wait. -/
theorem not_balanced {rt : Runtime} {tr : List (Step Time)} {id : TaskId}
    (hin : id ∈ rt.scheduler.inFlight) (hnot : ¬ LeftAwaiting rt id) : ¬ Balanced rt tr :=
  fun h => hnot ((h.inFlight id).mp hin)

/-! ## Steps -/

section Steps

variable {rt rt' : Runtime}

theorem SetsState.not_awaiting {id : TaskId} {state : NodeState} (h : SetsState rt rt' id state)
    (hs : state ≠ .awaitingHal) (hnone : ∀ id, ¬ LeftAwaiting rt id) (id' : TaskId) :
    ¬ LeftAwaiting rt' id' := by
  rintro ⟨node, hnode, hstate⟩
  rw [h id'] at hnode
  by_cases hid : id' = id
  · rw [if_pos hid] at hnode
    obtain ⟨n, -, rfl⟩ := Option.map_eq_some_iff.mp hnode
    exact hs hstate
  · rw [if_neg hid] at hnode
    exact hnone id' ⟨node, hnode, hstate⟩

theorem Puts.not_awaiting {ids : List TaskId} (h : Puts rt rt' ids)
    (hnone : ∀ id, ¬ LeftAwaiting rt id) (id : TaskId) : ¬ LeftAwaiting rt' id := by
  rintro ⟨node, hnode, hstate⟩
  rw [h.get id] at hnode
  by_cases hid : id ∈ ids
  · rw [if_pos hid] at hnode
    obtain ⟨n, -, rfl⟩ := Option.map_eq_some_iff.mp hnode
    cases hstate
  · rw [if_neg hid] at hnode
    exact hnone id ⟨node, hnode, hstate⟩

theorem Puts.atRest {ids : List TaskId} (h : Puts rt rt' ids) (hrest : AtRest rt) :
    AtRest rt' := by
  refine ⟨h.inFlight.trans hrest.inFlight, h.not_awaiting hrest.none, fun id hid => ?_⟩
  rw [h.relabels.isSome]
  rcases h.mem_queued_iff.mp hid with hput | hold
  · obtain ⟨node, hnode, -⟩ := h.pending id hput
    rw [hnode]
    rfl
  · exact hrest.there id hold

end Steps

/-! ## One round -/

/-- What a round on a task that is there comes to. -/
inductive RoundEnds (rt : Runtime) (w : RoundWorld Time) (id : TaskId) (traceId : String) :
    Round Time → Prop
  /-- The task was let through, and the executor had it. -/
  | through (rt₂ : Runtime) (task : TaskExecutionRecord) (result : TaskResult) (node : TaskNode)
      (hadmitted : Admitted rt w.gate id traceId) (hmark : Marks rt rt₂ id .running)
      (hstatus : task.status ≠ "awaiting_hal") :
      RoundEnds rt w id traceId ⟨.ok (task, result.error.isNone),
        finishNode w.clock rt₂ id result, [.dispatch rt w.gate id traceId, .execute id node]⟩
  /-- The task was denied, or its dispatch ended in an error. -/
  | stopped (rt₂ : Runtime) (result : Except OrchestratorError (TaskExecutionRecord × Bool))
      (hnot : ¬ Admitted rt w.gate id traceId)
      (hresult : ∀ task ok, result = .ok (task, ok) → ok = false ∧ task.status = "denied")
      (hleft : rt₂ = rt ∨ Marks rt rt₂ id .failed) :
      RoundEnds rt w id traceId ⟨result, rt₂, [.dispatch rt w.gate id traceId]⟩

theorem not_admitted_of_refused {rt : Runtime} {w : GateWorld Time} {id : TaskId}
    {traceId : String} (h : (dispatchNode rt w id traceId).Refused) :
    ¬ Admitted rt w id traceId :=
  fun hadmitted => h.not_dispatched (dispatched_of_admitted hadmitted)

theorem roundEnds {rt : Runtime} {id : TaskId} {node : TaskNode}
    (hnode : rt.graph.get id = some node) (w : RoundWorld Time) (traceId : String) :
    RoundEnds rt w id traceId (round rt w id traceId) := by
  cases dispatchNode_case rt w.gate id traceId with
  | runs hout hmark hwhy =>
      obtain ⟨note, hresult⟩ := hout
      obtain ⟨task, -, hstatus, hround⟩ := round_of_dispatched hnode hresult hmark
      rw [hround]
      refine .through _ task _ _ hwhy hmark ?_
      rw [hstatus]
      split_ifs
      · decide
      · decide
  | fails hout hmark =>
      have hnot := not_admitted_of_refused hout
      rcases hout with ⟨reason, note, hresult⟩ | ⟨e, hresult⟩
      · obtain ⟨task, -, hstatus, hround⟩ := round_of_denied hnode hresult
        rw [hround]
        refine .stopped _ _ hnot (fun task' ok heq => ?_) (Or.inr hmark)
        cases heq
        exact ⟨rfl, hstatus⟩
      · rw [round_of_error hnode hresult]
        exact .stopped _ _ hnot (fun _ _ heq => by cases heq) (Or.inr hmark)
  | errs hout hsame =>
      have hnot := not_admitted_of_refused (.inr hout)
      obtain ⟨e, hresult⟩ := hout
      rw [round_of_error hnode hresult]
      exact .stopped _ _ hnot (fun _ _ heq => by cases heq) (Or.inl hsame)

/-! ## The loop -/

section Loop

variable {rt rt₂ : Runtime} {s : OrchestratorScheduler} {entry : SchedEntry} {pick : Nat}

theorem inFlight_next {s s' : OrchestratorScheduler} (h : s.next pick = some (entry, s')) :
    s'.inFlight = entry.taskId :: s.inFlight := by
  unfold OrchestratorScheduler.next at h
  split at h
  · cases h
  · cases h
    rfl

/-- The task that was taken is completed, and what that frees is put. -/
theorem AtRest.finishNode (h : AtRest rt) (hnext : rt.scheduler.next pick = some (entry, s))
    (hmark : Marks { rt with scheduler := s } rt₂ entry.taskId .running) (clock : Nat → Nat)
    (result : TaskResult) : AtRest (finishNode clock rt₂ entry.taskId result) := by
  obtain ⟨ids, hputs, -⟩ :=
    puts_enqueueReadyDependents clock (complete rt₂ entry.taskId result) entry.taskId
  refine hputs.atRest ⟨?_, ?_, fun id hid => ?_⟩
  · show rt₂.scheduler.inFlight.filter (· ≠ entry.taskId) = []
    rw [hmark.scheduler]
    show s.inFlight.filter (· ≠ entry.taskId) = []
    rw [inFlight_next hnext, h.inFlight]
    simp
  · have hrunning := hmark.sets.not_awaiting (fun h => by cases h) h.none
    refine SetsState.not_awaiting (get_complete rt₂ entry.taskId result) ?_ hrunning
    unfold stateOf
    split_ifs
    · exact fun h => by cases h
    · exact fun h => by cases h
  · have hsets : SetsState rt₂ (complete rt₂ entry.taskId result) entry.taskId (stateOf result) :=
      get_complete rt₂ entry.taskId result
    rw [hsets.relabels.isSome, hmark.sets.relabels.isSome]
    refine h.there id ?_
    have hqueue : id ∈ rt₂.scheduler.queue.map (·.taskId) := hid
    rw [hmark.scheduler] at hqueue
    obtain ⟨e, he, rfl⟩ := List.mem_map.mp hqueue
    have he : e ∈ s.queue := he
    rw [(next_eq_some hnext).2] at he
    exact List.mem_map_of_mem (List.mem_of_mem_erase he)

/-- What the loop leaves. -/
inductive LoopEnds (e : Execution Time) : Prop
  /-- All that was dispatched was let through. -/
  | rest (hall : AllAdmitted e.trace) (hrest : AtRest e.runtime)
  /-- The last task was not let through, and is still in flight. -/
  | stopped (hnot : ¬ AllAdmitted e.trace) (id : TaskId)
      (hin : id ∈ e.runtime.scheduler.inFlight) (hleft : ¬ LeftAwaiting e.runtime id)

/-- Rounds that let their tasks through, before the loop. -/
theorem LoopEnds.prepend {e : Execution Time} (h : LoopEnds e) {tr : List (Step Time)}
    (htr : AllAdmitted tr) : LoopEnds { e with trace := tr ++ e.trace } := by
  cases h with
  | rest hall hrest =>
      refine .rest (fun rt w id traceId hmem => ?_) hrest
      rcases List.mem_append.mp hmem with hmem | hmem
      · exact htr rt w id traceId hmem
      · exact hall rt w id traceId hmem
  | stopped hnot id hin hleft =>
      refine .stopped (fun hall => hnot fun rt w id traceId hmem => ?_) id hin hleft
      exact hall rt w id traceId (List.mem_append_right tr hmem)

theorem loopEnds (worlds : Nat → RoundWorld Time) (traceId : String) (rounds k : Nat)
    (tasks : List TaskExecutionRecord) (h : AtRest rt) :
    LoopEnds (execLoop worlds traceId rounds k rt tasks) := by
  induction rounds generalizing k rt tasks with
  | zero => exact .rest (fun _ _ _ _ hmem => absurd hmem List.not_mem_nil) h
  | succ rounds ih =>
      cases hnext : rt.scheduler.next (worlds k).pick with
      | none =>
          rw [execLoop_idle hnext]
          exact .rest (fun _ _ _ _ hmem => absurd hmem List.not_mem_nil) h
      | some next =>
          obtain ⟨entry, s⟩ := next
          have hqueued : entry.taskId ∈ rt.queued := List.mem_map_of_mem (next_eq_some hnext).1
          obtain ⟨node, hnode⟩ := Option.isSome_iff_exists.mp (h.there _ hqueued)
          have hends := @roundEnds _ { rt with scheduler := s } _ _ hnode (worlds k) traceId
          generalize hround : round { rt with scheduler := s } (worlds k) entry.taskId traceId = r
            at hends
          cases hends with
          | through rt₂ task result node hadmitted hmark hstatus =>
              have hrest := h.finishNode hnext hmark (worlds k).clock result
              have hfirst : AllAdmitted [Step.dispatch { rt with scheduler := s } (worlds k).gate
                  entry.taskId traceId, .execute entry.taskId node] := by
                intro rt' w id traceId' hmem
                rcases List.mem_cons.mp hmem with heq | hmem
                · cases heq
                  exact hadmitted
                · cases List.mem_singleton.mp hmem
              cases hok : result.error.isNone with
              | true =>
                  rw [hok] at hround
                  rw [execLoop_goesOn hnext hround]
                  exact (ih (k + 1) (tasks ++ [task]) hrest).prepend hfirst
              | false =>
                  rw [hok] at hround
                  rw [execLoop_stops hnext hround hstatus]
                  exact .rest hfirst hrest
          | stopped rt₂ result hnot hresult hleft =>
              have hstay : entry.taskId ∈ rt₂.scheduler.inFlight ∧
                  ¬ LeftAwaiting rt₂ entry.taskId := by
                have hin : entry.taskId ∈ s.inFlight := by
                  rw [inFlight_next hnext]
                  exact List.mem_cons_self
                rcases hleft with rfl | hmark
                · exact ⟨hin, h.none entry.taskId⟩
                · refine ⟨?_, hmark.sets.not_awaiting (fun heq => by cases heq) h.none _⟩
                  rw [hmark.scheduler]
                  exact hin
              have hend : ∀ result', LoopEnds (⟨result', rt₂,
                  [.dispatch { rt with scheduler := s } (worlds k).gate entry.taskId traceId]⟩ :
                    Execution Time) := fun result' =>
                .stopped (fun hall => hnot (hall _ _ _ _ (List.mem_singleton_self _)))
                  entry.taskId hstay.1 hstay.2
              cases result with
              | error e =>
                  rw [execLoop_error hnext hround]
                  exact hend _
              | ok p =>
                  obtain ⟨task, ok⟩ := p
                  obtain ⟨rfl, hdenied⟩ := hresult task ok rfl
                  rw [execLoop_stops hnext hround (by rw [hdenied]; decide)]
                  exact hend _

end Loop

/-! ## Submit -/

theorem atRest_new {rt : Runtime} (hgraph : rt.graph = .new) (hscheduler : rt.scheduler = .new) :
    AtRest rt := by
  refine ⟨by rw [hscheduler]; rfl, ?_, ?_⟩
  · rintro id ⟨node, hnode, -⟩
    rw [hgraph] at hnode
    cases hnode
  · intro id hid
    rw [Runtime.queued, hscheduler] at hid
    exact absurd hid List.not_mem_nil

/-- The nodes of a plan are pending when they are added. -/
theorem not_awaiting_addNodes (w : SubmitWorld) {rt : Runtime} (k : Nat)
    (nodes : List PlannedNode) (h : ∀ id, ¬ LeftAwaiting rt id) (id : TaskId) :
    ¬ LeftAwaiting (addNodes w rt k nodes).1 id := by
  induction nodes generalizing rt k with
  | nil => exact h id
  | cons p ps ih =>
      refine @ih (addNode rt w k p).1 (k + 1) fun id' => ?_
      rintro ⟨node, hnode, hstate⟩
      rw [get_addNode] at hnode
      split_ifs at hnode with hid
      · cases hnode
        cases hstate
      · exact h id' ⟨node, hnode, hstate⟩

theorem Wired.atRest {rt rt' : Runtime} {w : SubmitWorld} {plan : DecompositionPlan} {m : Nat}
    (hwired : Wired rt w plan m rt') (h : AtRest rt) : AtRest rt' := by
  refine ⟨by rw [hwired.scheduler]; exact h.inFlight, ?_, fun id hid => ?_⟩
  · rintro id ⟨node, hnode, hstate⟩
    rw [hwired.get] at hnode
    exact not_awaiting_addNodes w 0 plan.nodes h.none id ⟨node, hnode, hstate⟩
  · rw [hwired.get]
    rw [Runtime.queued, hwired.scheduler] at hid
    exact isSome_addNodes w rt 0 plan.nodes (h.there id hid)

/-- A submit leaves the runtime at rest, whether it succeeds or not. -/
theorem atRest_submit {rt : Runtime} (h : AtRest rt) (w : SubmitWorld) (intent : Intent) :
    AtRest (submit rt w intent).2 := by
  have hcase := submit_case rt w intent
  generalize submit rt w intent = result at hcase
  cases hcase with
  | noPlan e hplan => exact h
  | stopped e plan m rt' hplan hwired => exact hwired.atRest h
  | placed plan m rt' rt'' root roots hplan hwired hall hready hputs =>
      exact hputs.atRest (hwired.atRest h)

/-! ## Submit and execute -/

/-- A run balances exactly when the gate lets every task through that it dispatches. -/
theorem balanced_iff (rt : Runtime) (w : ExecWorld Time) (utterance userId traceId : String) :
    Balanced (submitAndExecute rt w utterance userId traceId).2.1
        (submitAndExecute rt w utterance userId traceId).2.2 ↔
      AllAdmitted (submitAndExecute rt w utterance userId traceId).2.2 := by
  have hrest := atRest_submit (@atRest_new (resetExecutionState rt) rfl rfl) w.submit
    (Intent.new w.intentId userId utterance)
  unfold submitAndExecute
  simp only
  generalize submit (resetExecutionState rt) w.submit (Intent.new w.intentId userId utterance) =
    out at hrest
  obtain ⟨result, rt₁⟩ := out
  cases result with
  | error e =>
      exact iff_of_true (AtRest.balanced hrest _) fun _ _ _ _ hmem => absurd hmem List.not_mem_nil
  | ok root =>
      cases loopEnds w.round traceId w.rounds 0 [] hrest with
      | rest hall hend => exact iff_of_true (hend.balanced _) hall
      | stopped hnot id hin hleft => exact iff_of_false (not_balanced hin hleft) hnot

/-- "delete notes", with no HAL gate attached: the second task has failed, and is in flight. -/
theorem not_balanced_deleteNotes :
    (submitAndExecute Runtime.new openNotesWorld "delete notes" "ana" "trace").1.isSome = true ∧
      ¬ Balanced (submitAndExecute Runtime.new openNotesWorld "delete notes" "ana" "trace").2.1
        (submitAndExecute Runtime.new openNotesWorld "delete notes" "ana" "trace").2.2 := by
  have hrun : ∀ out,
      out = submitAndExecute Runtime.new openNotesWorld "delete notes" "ana" "trace" →
      out.1.isSome = true ∧ out.2.1.scheduler.inFlight = [minted offline 1] ∧
        (out.2.1.graph.get (minted offline 1)).map (·.state) = some .failed := by
    rintro out rfl
    decide +kernel
  obtain ⟨hreturns, hflight, hstate⟩ := hrun _ rfl
  refine ⟨hreturns, @not_balanced _ _ _ (minted offline 1) ?_ ?_⟩
  · rw [hflight]
    exact List.mem_singleton_self _
  · rintro ⟨node, hnode, hawaiting⟩
    rw [hnode, Option.map_some, hawaiting] at hstate
    cases hstate

end Orchestrator

/-
# `Cognos.Orchestrator.DispatchSafety` — nothing side-effecting runs ungated

A dispatch is `Authorised` when HAL granted its request, or HAL asked for approval and
the blocking gate came back approved, in that dispatch.  The argument has two layers.

    one dispatch    `dispatchNode_dispatched`, `dispatchNode_becomes_running`: the exits of
                    `dispatch_node` that leave a side-effecting node running are authorised
    a whole run     `Moves`: between two states of a run, a node that is running was
                    running before with the same intent, or the trace has its dispatch

`Moves` composes along the trace, every operation satisfies it, and so does every run.
-/
import Mathlib.Data.List.Chain
import Cognos.Orchestrator.Runtime

namespace Orchestrator

open Ipc (HalGateRequest CognosClient)

variable {Time : Type}

/-! ## Authorised dispatches -/

/-- HAL let this dispatch through, by itself or with a human's approval. -/
def Authorised (rt : Runtime) (w : GateWorld Time) (id : TaskId) (traceId : String) : Prop :=
  ∃ client node, rt.halGate = some client ∧ rt.graph.get id = some node ∧
    (HalAnswered client w.freshTrace w.halReply node.sideEffect traceId "granted" ∨
     (HalAnswered client w.freshTrace w.halReply node.sideEffect traceId "approval_required" ∧
      ∃ resp, w.wait node.sideEffect traceId = .answered resp ∧ resp.approved = true))

/-- The dispatch reports the node as dispatched. -/
def Dispatch.Dispatched (d : Dispatch) : Prop := ∃ note, d.result = .ok (.dispatched, note)

/-- The node is running after the dispatch and was not before. -/
def BecomesRunning (rt : Runtime) (d : Dispatch) (id : TaskId) : Prop :=
  (∃ node, d.runtime.graph.get id = some node ∧ node.state = .running) ∧
    ¬ ∃ node, rt.graph.get id = some node ∧ node.state = .running

/-! ## One dispatch -/

@[simp] theorem get_setState (rt : Runtime) (id : TaskId) (s : NodeState) (id' : TaskId) :
    (rt.setState id s).graph.get id' =
      if id' = id then (rt.graph.get id).map ({ · with state := s }) else rt.graph.get id' :=
  TaskGraph.get_setState rt.graph id s id'

/-- Between two states, the node `id` gets the state `s` and no other node changes. -/
def SetsState (rt rt' : Runtime) (id : TaskId) (s : NodeState) : Prop :=
  ∀ id', rt'.graph.get id' =
    if id' = id then (rt.graph.get id).map ({ · with state := s }) else rt.graph.get id'

/-- The node `id` gets the state `s`; no other node, no edge and no entry changes. -/
structure Marks (rt rt' : Runtime) (id : TaskId) (s : NodeState) : Prop where
  sets : SetsState rt rt' id s
  edges : rt'.graph.edges = rt.graph.edges
  scheduler : rt'.scheduler = rt.scheduler

theorem marks_setState (rt : Runtime) (id : TaskId) (s : NodeState) :
    Marks rt (rt.setState id s) id s :=
  ⟨get_setState rt id s, TaskGraph.edges_setState _ _ _, rfl⟩

theorem marks_park (rt : Runtime) (id : TaskId) : Marks rt (park rt id) id .awaitingHal := by
  unfold park
  cases h : rt.graph.get id with
  | none =>
      refine ⟨?_, rfl, rfl⟩
      intro id'
      by_cases hid : id' = id
      · subst hid
        simp [h]
      · simp [hid]
  | some node =>
      have hset := marks_setState rt id .awaitingHal
      exact ⟨hset.sets, hset.edges, hset.scheduler⟩

/-- Of two states set one after the other the second one counts. -/
theorem SetsState.trans {rt rt' rt'' : Runtime} {id : TaskId} {s s' : NodeState}
    (h : SetsState rt rt' id s) (h' : SetsState rt' rt'' id s') : SetsState rt rt'' id s' := by
  intro id'
  rw [h' id', h id, if_pos rfl, h id']
  split_ifs
  · simp [Option.map_map, Function.comp_def]
  · rfl

theorem Marks.trans {rt rt' rt'' : Runtime} {id : TaskId} {s s' : NodeState}
    (h : Marks rt rt' id s) (h' : Marks rt' rt'' id s') : Marks rt rt'' id s' :=
  ⟨h.sets.trans h'.sets, h'.edges.trans h.edges, h'.scheduler.trans h.scheduler⟩

/-- The node is let through: it is read-only, or HAL authorised it. -/
def Admitted (rt : Runtime) (w : GateWorld Time) (id : TaskId) (traceId : String) : Prop :=
  (∃ node, rt.graph.get id = some node ∧ isSideEffecting node.capability = false) ∨
    Authorised rt w id traceId

/-- The dispatch says no, by its outcome or by an error. -/
def Dispatch.Refused (d : Dispatch) : Prop :=
  (∃ reason note, d.result = .ok (.denied reason, note)) ∨ ∃ e, d.result = .error e

theorem Dispatch.Refused.not_dispatched {d : Dispatch} (h : d.Refused) : ¬ d.Dispatched := by
  rintro ⟨note, hok⟩
  rcases h with ⟨reason, note', h⟩ | ⟨e, h⟩
  · rw [hok] at h
    cases h
  · rw [hok] at h
    cases h

/-- What a dispatch does to the state. -/
inductive DispatchCase (rt : Runtime) (w : GateWorld Time) (id : TaskId) (traceId : String)
    (d : Dispatch) : Prop
  | runs (hout : d.Dispatched) (hmark : Marks rt d.runtime id .running)
      (hwhy : Admitted rt w id traceId)
  | fails (hout : d.Refused) (hmark : Marks rt d.runtime id .failed)
  | errs (hout : ∃ e, d.result = .error e) (hsame : d.runtime = rt)

theorem case_refuse {rt : Runtime} {w : GateWorld Time} {id : TaskId} {traceId : String}
    (reason : String) (sent : Option HalGateRequest) :
    DispatchCase rt w id traceId (refuse (park rt id) id reason sent) :=
  .fails (.inl ⟨_, _, rfl⟩) ((marks_park rt id).trans (marks_setState _ id .failed))

theorem dispatchNode_case (rt : Runtime) (w : GateWorld Time) (id : TaskId) (traceId : String) :
    DispatchCase rt w id traceId (dispatchNode rt w id traceId) := by
  unfold dispatchNode
  split
  next => exact .errs ⟨_, rfl⟩ rfl
  next node hnode =>
  simp only
  split
  next hro =>
    have hro' : isSideEffecting node.capability = false := by
      simpa [TaskNode.sideEffect] using hro
    exact .runs ⟨_, rfl⟩ (marks_setState rt id .running) (.inl ⟨node, hnode, hro'⟩)
  split
  next => exact .fails (.inr ⟨_, rfl⟩) (marks_setState rt id .failed)
  next client hgate =>
  split
  next => exact .errs ⟨_, rfl⟩ rfl
  next token risk hg =>
    exact .runs ⟨_, rfl⟩ (marks_setState rt id .running)
      (.inr ⟨client, node, hgate, hnode, .inl (gateAction_granted hg)⟩)
  next risk hg =>
    unfold awaitApproval
    simp only
    split
    next resp hw =>
      split
      next happ =>
        exact .runs ⟨_, rfl⟩ ((marks_park rt id).trans (marks_setState _ id .running))
          (.inr ⟨client, node, hgate, hnode,
            .inr ⟨gateAction_approvalRequired hg, resp, hw, happ⟩⟩)
      next => exact case_refuse _ _
    next => exact case_refuse _ _
    next => exact case_refuse _ _
    next => exact case_refuse _ _
  next reason risk hg =>
    exact .fails (.inl ⟨_, _, rfl⟩) (marks_setState rt id .failed)

/-- The exits of a dispatch. -/
inductive Exit (rt : Runtime) (w : GateWorld Time) (id : TaskId) (traceId : String)
    (d : Dispatch) : Prop
  /-- The node runs: it is read-only, or it was let through. -/
  | runs (hout : d.Dispatched) (hset : SetsState rt d.runtime id .running)
      (hwhy : (∃ node, rt.graph.get id = some node ∧ isSideEffecting node.capability = false) ∨
        Authorised rt w id traceId)
  /-- The node is stopped in another state. -/
  | stops (s : NodeState) (hs : s ≠ .running) (hout : ¬ d.Dispatched)
      (hset : SetsState rt d.runtime id s)
  /-- An error, with the graph as it was. -/
  | errs (hout : ¬ d.Dispatched) (hsame : d.runtime = rt)

/-- A dispatch ends in one of its exits. -/
theorem dispatchNode_exit (rt : Runtime) (w : GateWorld Time) (id : TaskId) (traceId : String) :
    Exit rt w id traceId (dispatchNode rt w id traceId) := by
  cases dispatchNode_case rt w id traceId with
  | runs hout hmark hwhy => exact .runs hout hmark.sets hwhy
  | fails hout hmark => exact .stops .failed (by decide) hout.not_dispatched hmark.sets
  | errs hout hsame => exact .errs (Dispatch.Refused.not_dispatched (.inr hout)) hsame

/-- A dispatch that reports a side-effecting node as dispatched was authorised. -/
theorem dispatchNode_dispatched {rt : Runtime} {w : GateWorld Time} {id : TaskId}
    {traceId : String} {node : TaskNode} (hnode : rt.graph.get id = some node)
    (hse : isSideEffecting node.capability = true)
    (h : (dispatchNode rt w id traceId).Dispatched) : Authorised rt w id traceId := by
  cases dispatchNode_exit rt w id traceId with
  | runs _ _ hwhy =>
      rcases hwhy with ⟨n, hn, hro⟩ | hauth
      · rw [hnode] at hn
        cases hn
        rw [hse] at hro
        cases hro
      · exact hauth
  | stops _ _ hout _ => exact absurd h hout
  | errs hout _ => exact absurd h hout

/-- A node only becomes running in a dispatch that reports it as dispatched. -/
theorem dispatched_of_becomesRunning {rt : Runtime} {w : GateWorld Time} {id : TaskId}
    {traceId : String} (h : BecomesRunning rt (dispatchNode rt w id traceId) id) :
    (dispatchNode rt w id traceId).Dispatched := by
  obtain ⟨⟨node, hnode, hrun⟩, hbefore⟩ := h
  cases dispatchNode_exit rt w id traceId with
  | runs hout _ _ => exact hout
  | stops s hs _ hset =>
      rw [hset id, if_pos rfl] at hnode
      obtain ⟨n, -, rfl⟩ := Option.map_eq_some_iff.mp hnode
      exact absurd hrun hs
  | errs _ hsame =>
      rw [hsame] at hnode
      exact absurd ⟨node, hnode, hrun⟩ hbefore

/-! ## Runs -/

/-- What a run of the orchestrator is made of. -/
inductive Op (Time : Type)
  | attachHalGate (client : CognosClient)
  | attachIntentClient (client : CognosClient)
  | submit (w : SubmitWorld) (intent : Intent)
  | dispatchNode (w : GateWorld Time) (id : TaskId) (traceId : String)
  | submitAndExecute (w : ExecWorld Time) (utterance userId traceId : String)

def runOp (rt : Runtime) : Op Time → Runtime × List (Step Time)
  | .attachHalGate client => ({ rt with halGate := some client }, [])
  | .attachIntentClient client => ({ rt with intentClient := some client }, [])
  | .submit w intent => ((submit rt w intent).2, [])
  | .dispatchNode w id traceId =>
      ((dispatchNode rt w id traceId).runtime, [.dispatch rt w id traceId])
  | .submitAndExecute w utterance userId traceId =>
      (submitAndExecute rt w utterance userId traceId).2

/-- A sequence of calls: the state it leaves and its trace. -/
def runOps (rt : Runtime) : List (Op Time) → Runtime × List (Step Time)
  | [] => (rt, [])
  | op :: ops =>
      let (rt, tr) := runOp rt op
      let (rt, tr') := runOps rt ops
      (rt, tr ++ tr')

/-- A step that dispatches `id` with `intent` and, if that is side-effecting, with authority. -/
def LetsThrough (id : TaskId) (intent : Json.Value) (step : Step Time) : Prop :=
  ∃ rt w traceId node, step = .dispatch rt w id traceId ∧ rt.graph.get id = some node ∧
    node.intent = intent ∧ (isSideEffecting node.capability = true → Authorised rt w id traceId)

/-- A node that is running at the end was running with the same intent at the start, or the
trace lets it through. -/
def Moves (rt rt' : Runtime) (tr : List (Step Time)) : Prop :=
  ∀ id node', rt'.graph.get id = some node' → node'.state = .running →
    (∃ node, rt.graph.get id = some node ∧ node.state = .running ∧
      node.intent = node'.intent) ∨
    ∃ step ∈ tr, LetsThrough id node'.intent step

/-- A node handed to the executor was let through in the step before. -/
def Follows (a b : Step Time) : Prop :=
  match b with
  | .dispatch _ _ _ _ => True
  | .execute id node => LetsThrough id node.intent a

/-- A trace in which every execution follows its dispatch. -/
def Sound (tr : List (Step Time)) : Prop :=
  tr.IsChain Follows ∧ ∀ step ∈ tr.head?, ∃ rt w id traceId, step = .dispatch rt w id traceId

/-! ## How moves compose -/

theorem Moves.of_get {rt rt' : Runtime} (h : ∀ id, rt'.graph.get id = rt.graph.get id) :
    Moves rt rt' ([] : List (Step Time)) := by
  intro id node' hnode hrun
  rw [h id] at hnode
  exact .inl ⟨node', hnode, hrun, rfl⟩

theorem Moves.trans {rt rt' rt'' : Runtime} {tr tr' : List (Step Time)} (h : Moves rt rt' tr)
    (h' : Moves rt' rt'' tr') : Moves rt rt'' (tr ++ tr') := by
  intro id node'' hnode hrun
  rcases h' id node'' hnode hrun with ⟨node', hn', hr', hi'⟩ | ⟨step, hmem, hthru⟩
  · rcases h id node' hn' hr' with ⟨node, hn, hr, hi⟩ | ⟨step, hmem, hthru⟩
    · exact .inl ⟨node, hn, hr, hi.trans hi'⟩
    · exact .inr ⟨step, List.mem_append_left _ hmem, hi' ▸ hthru⟩
  · exact .inr ⟨step, List.mem_append_right _ hmem, hthru⟩

/-- Steps that leave no trace. -/
theorem Moves.trans_nil {rt rt' rt'' : Runtime} {tr : List (Step Time)} (h : Moves rt rt' tr)
    (h' : Moves rt' rt'' ([] : List (Step Time))) : Moves rt rt'' tr := by
  simpa using h.trans h'

theorem Moves.mono {rt rt' : Runtime} {tr tr' : List (Step Time)} (h : Moves rt rt' tr)
    (hsub : tr ⊆ tr') : Moves rt rt' tr' := by
  intro id node' hnode hrun
  rcases h id node' hnode hrun with hold | ⟨step, hmem, hthru⟩
  · exact .inl hold
  · exact .inr ⟨step, hsub hmem, hthru⟩

theorem Moves.setState (rt : Runtime) (id : TaskId) {s : NodeState} (hs : s ≠ .running) :
    Moves rt (rt.setState id s) ([] : List (Step Time)) := by
  intro id' node' hnode hrun
  rw [get_setState] at hnode
  split_ifs at hnode with hid
  · obtain ⟨n, -, rfl⟩ := Option.map_eq_some_iff.mp hnode
    exact absurd hrun hs
  · exact .inl ⟨node', hnode, hrun, rfl⟩

theorem Sound.nil : Sound ([] : List (Step Time)) := ⟨.nil, by simp⟩

theorem Sound.append {tr tr' : List (Step Time)} (h : Sound tr) (h' : Sound tr') :
    Sound (tr ++ tr') := by
  refine ⟨h.1.append h'.1 ?_, ?_⟩
  · intro a _ b hb
    obtain ⟨rt, w, id, traceId, rfl⟩ := h'.2 b hb
    trivial
  · cases tr with
    | nil => exact h'.2
    | cons step tr => exact h.2

theorem Sound.dispatch (rt : Runtime) (w : GateWorld Time) (id : TaskId) (traceId : String) :
    Sound [Step.dispatch rt w id traceId] :=
  ⟨.singleton _, by rintro _ ⟨⟩; exact ⟨_, _, _, _, rfl⟩⟩

/-! ## Every operation moves soundly -/

theorem letsThrough_of_dispatched {rt : Runtime} {w : GateWorld Time} {id : TaskId}
    {traceId : String} {node : TaskNode} (hnode : rt.graph.get id = some node)
    (h : (dispatchNode rt w id traceId).Dispatched) :
    LetsThrough id node.intent (.dispatch rt w id traceId) :=
  ⟨rt, w, traceId, node, rfl, hnode, rfl, fun hse => dispatchNode_dispatched hnode hse h⟩

/-- After a dispatch that says so, the node is the one dispatched, with its intent. -/
theorem intent_of_dispatch {rt : Runtime} {w : GateWorld Time} {id : TaskId} {traceId : String}
    {node' : TaskNode} (h : (dispatchNode rt w id traceId).runtime.graph.get id = some node') :
    ∃ node, rt.graph.get id = some node ∧ node.intent = node'.intent := by
  have of_set : ∀ s, SetsState rt (dispatchNode rt w id traceId).runtime id s →
      ∃ node, rt.graph.get id = some node ∧ node.intent = node'.intent := by
    intro s hset
    rw [hset id, if_pos rfl] at h
    obtain ⟨n, hn, rfl⟩ := Option.map_eq_some_iff.mp h
    exact ⟨n, hn, rfl⟩
  cases dispatchNode_exit rt w id traceId with
  | runs _ hset _ => exact of_set _ hset
  | stops s _ _ hset => exact of_set s hset
  | errs _ hsame => rw [hsame] at h; exact ⟨node', h, rfl⟩

theorem moves_dispatchNode (rt : Runtime) (w : GateWorld Time) (id : TaskId) (traceId : String) :
    Moves rt (dispatchNode rt w id traceId).runtime [Step.dispatch rt w id traceId] := by
  intro id' node' hnode hrun
  by_cases hid : id' = id
  · subst hid
    by_cases hbefore : ∃ node, rt.graph.get id' = some node ∧ node.state = .running
    · obtain ⟨node, hn, hr⟩ := hbefore
      obtain ⟨n, hn', hi⟩ := intent_of_dispatch hnode
      rw [hn] at hn'
      cases hn'
      exact .inl ⟨node, hn, hr, hi⟩
    · have hdis := dispatched_of_becomesRunning ⟨⟨node', hnode, hrun⟩, hbefore⟩
      obtain ⟨node, hn, hi⟩ := intent_of_dispatch hnode
      exact .inr ⟨_, List.mem_singleton_self _, hi ▸ letsThrough_of_dispatched hn hdis⟩
  · refine .inl ⟨node', ?_, hrun, rfl⟩
    cases dispatchNode_exit rt w id traceId with
    | runs _ hset _ => rwa [hset id', if_neg hid] at hnode
    | stops s _ _ hset => rwa [hset id', if_neg hid] at hnode
    | errs _ hsame => rwa [hsame] at hnode

theorem moves_addNode (rt : Runtime) (w : SubmitWorld) (k : Nat) (p : PlannedNode) :
    Moves rt (addNode rt w k p).1 ([] : List (Step Time)) := by
  intro id node' hnode hrun
  have hget : (addNode rt w k p).1.graph.get id
      = (rt.graph.addTask (w.freshIds k) (plannedTask rt w p.subTask)).1.get id := rfl
  rw [hget, TaskGraph.get_addTask] at hnode
  split_ifs at hnode with hid
  · -- the new node is pending
    cases hnode
    cases hrun
  · exact .inl ⟨node', hnode, hrun, rfl⟩

theorem moves_addNodes (w : SubmitWorld) (rt : Runtime) (k : Nat) (nodes : List PlannedNode) :
    Moves rt (addNodes w rt k nodes).1 ([] : List (Step Time)) := by
  induction nodes generalizing rt k with
  | nil => exact .of_get fun _ => rfl
  | cons p ps ih => exact (moves_addNode rt w k p).trans_nil (ih _ _)

theorem get_addEdges {n : Nat} (ids : { ids : List TaskId // ids.length = n }) (rt : Runtime)
    (es : List (Fin n × Fin n)) (id : TaskId) :
    (addEdges ids rt es).2.graph.get id = rt.graph.get id := by
  induction es generalizing rt with
  | nil => rfl
  | cons e es ih =>
      obtain ⟨i, j⟩ := e
      unfold addEdges
      split
      next => rfl
      next graph hg => rw [ih]; exact TaskGraph.get_addDependency hg id

theorem moves_enqueueRoots (w : SubmitWorld) (priority : Nat) (rt : Runtime) (k : Nat)
    (ids : List TaskId) :
    Moves rt (enqueueRoots w priority rt k ids) ([] : List (Step Time)) := by
  induction ids generalizing rt k with
  | nil => exact .of_get fun _ => rfl
  | cons id ids ih => exact (Moves.setState rt id (s := .ready) (by decide)).trans_nil (ih _ _)

theorem moves_submit (rt : Runtime) (w : SubmitWorld) (intent : Intent) :
    Moves rt (submit rt w intent).2 ([] : List (Step Time)) := by
  unfold submit
  split
  next => exact .of_get fun _ => rfl
  next plan _ =>
  have hnodes : Moves rt (addNodes w rt 0 plan.nodes).1 ([] : List (Step Time)) :=
    moves_addNodes w rt 0 plan.nodes
  have hedges : Moves (addNodes w rt 0 plan.nodes).1
      (addEdges (addNodes w rt 0 plan.nodes).2 (addNodes w rt 0 plan.nodes).1 plan.edges).2
      ([] : List (Step Time)) := .of_get fun id => get_addEdges _ _ _ id
  have hwired := hnodes.trans_nil hedges
  simp only
  split
  next e rt' h => rw [h] at hwired; exact hwired
  next u rt' h =>
    rw [h] at hwired
    split
    next => exact hwired
    next root roots _ => exact hwired.trans_nil (moves_enqueueRoots _ _ _ _ _)

theorem moves_enqueueDependent (rt : Runtime) (child : TaskId) (time : Nat) :
    Moves rt (enqueueDependent rt child time) ([] : List (Step Time)) := by
  unfold enqueueDependent
  split
  next =>
    split
    next => exact .of_get fun _ => rfl
    next node _ =>
      split
      next => exact Moves.setState rt child (by decide)
      next => exact .of_get fun _ => rfl
  next => exact .of_get fun _ => rfl

theorem moves_enqueueChildren (clock : Nat → Nat) (rt : Runtime) (k : Nat)
    (children : List TaskId) :
    Moves rt (enqueueChildren clock rt k children) ([] : List (Step Time)) := by
  induction children generalizing rt k with
  | nil => exact .of_get fun _ => rfl
  | cons child children ih => exact (moves_enqueueDependent rt child _).trans_nil (ih _ _)

theorem moves_finishNode (clock : Nat → Nat) (rt : Runtime) (id : TaskId) (result : TaskResult) :
    Moves rt (finishNode clock rt id result) ([] : List (Step Time)) := by
  have hdone : Moves rt
      { { rt with graph := rt.graph.markCompleted id result } with
        scheduler := rt.scheduler.complete id } ([] : List (Step Time)) :=
    Moves.setState rt id (s := if result.error.isNone then .succeeded else .failed)
      (by split <;> decide)
  exact hdone.trans_nil (moves_enqueueChildren clock _ _ _)

theorem round_sound (rt : Runtime) (w : RoundWorld Time) (id : TaskId) (traceId : String) :
    Moves rt (round rt w id traceId).runtime (round rt w id traceId).trace ∧
      Sound (round rt w id traceId).trace := by
  have hmoves := moves_dispatchNode rt w.gate id traceId
  have hsound := Sound.dispatch rt w.gate id traceId
  unfold round
  split
  next => exact ⟨.of_get fun _ => rfl, .nil⟩
  next node hnode =>
  simp only
  split
  next => exact ⟨hmoves, hsound⟩
  next note hres =>
    split
    next => exact ⟨hmoves, hsound⟩
    next snapshot hsnap =>
      obtain ⟨n, hn, hi⟩ := intent_of_dispatch hsnap
      have hthru : LetsThrough id snapshot.intent (.dispatch rt w.gate id traceId) :=
        hi ▸ letsThrough_of_dispatched hn ⟨note, hres⟩
      refine ⟨?_, ?_, ?_⟩
      · exact (hmoves.trans_nil (moves_finishNode w.clock _ id _)).mono (by simp)
      · exact .cons_cons hthru (.singleton _)
      · rintro _ ⟨⟩
        exact ⟨_, _, _, _, rfl⟩
  next => exact ⟨hmoves, hsound⟩
  next => exact ⟨hmoves, hsound⟩

theorem execLoop_sound (worlds : Nat → RoundWorld Time) (traceId : String) (rounds k : Nat)
    (rt : Runtime) (tasks : List TaskExecutionRecord) :
    Moves rt (execLoop worlds traceId rounds k rt tasks).runtime
        (execLoop worlds traceId rounds k rt tasks).trace ∧
      Sound (execLoop worlds traceId rounds k rt tasks).trace := by
  induction rounds generalizing k rt tasks with
  | zero => exact ⟨.of_get fun _ => rfl, .nil⟩
  | succ rounds ih =>
      unfold execLoop
      split
      next => exact ⟨.of_get fun _ => rfl, .nil⟩
      next entry scheduler _ =>
      -- taking the entry off the queue touches no node
      obtain ⟨hm, hs⟩ := round_sound { rt with scheduler := scheduler } (worlds k) entry.taskId
        traceId
      simp only
      split
      next => exact ⟨hm, hs⟩
      next task success _ =>
        split
        next => exact ⟨hm, hs⟩
        next =>
          obtain ⟨hm', hs'⟩ := ih (k + 1) _ (tasks ++ [task])
          exact ⟨hm.trans hm', hs.append hs'⟩

/-- A fresh graph has nothing running. -/
theorem moves_reset (rt : Runtime) :
    Moves rt (resetExecutionState rt) ([] : List (Step Time)) := by
  intro id node' hnode
  cases hnode

theorem runOp_sound (rt : Runtime) (op : Op Time) :
    Moves rt (runOp rt op).1 (runOp rt op).2 ∧ Sound (runOp rt op).2 := by
  cases op with
  | attachHalGate client => exact ⟨.of_get fun _ => rfl, .nil⟩
  | attachIntentClient client => exact ⟨.of_get fun _ => rfl, .nil⟩
  | submit w intent => exact ⟨moves_submit rt w intent, .nil⟩
  | dispatchNode w id traceId => exact ⟨moves_dispatchNode rt w id traceId, .dispatch _ _ _ _⟩
  | submitAndExecute w utterance userId traceId =>
      have hsub : Moves rt (submit (resetExecutionState rt) w.submit
          (Intent.new w.intentId userId utterance)).2 ([] : List (Step Time)) :=
        (moves_reset rt).trans_nil (moves_submit _ _ _)
      show Moves rt (submitAndExecute rt w utterance userId traceId).2.1
          (submitAndExecute rt w utterance userId traceId).2.2 ∧
        Sound (submitAndExecute rt w utterance userId traceId).2.2
      unfold submitAndExecute
      simp only
      split
      next e rt' h => rw [h] at hsub; exact ⟨hsub, .nil⟩
      next root rt' h =>
        rw [h] at hsub
        obtain ⟨hm, hs⟩ := execLoop_sound w.round traceId w.rounds 0 rt' []
        exact ⟨by simpa using hsub.trans hm, hs⟩

/-- Along every run, what starts to run was let through, and what is executed just was. -/
theorem runOps_sound (rt : Runtime) (ops : List (Op Time)) :
    Moves rt (runOps rt ops).1 (runOps rt ops).2 ∧ Sound (runOps rt ops).2 := by
  induction ops generalizing rt with
  | nil => exact ⟨.of_get fun _ => rfl, .nil⟩
  | cons op ops ih =>
      obtain ⟨hm, hs⟩ := runOp_sound rt op
      obtain ⟨hm', hs'⟩ := ih (runOp rt op).1
      exact ⟨hm.trans hm', hs.append hs'⟩

/-! ## Dispatch safety -/

/-- A side-effecting node is reported as dispatched, or becomes running, only in a dispatch that
HAL let through; and in every run what is executed was let through in the step before, and
what is running was let through or was running from the start. -/
theorem dispatch_safety :
    (∀ (rt : Runtime) (w : GateWorld Time) (id : TaskId) (traceId : String) (node : TaskNode),
      rt.graph.get id = some node → isSideEffecting node.capability = true →
      (dispatchNode rt w id traceId).Dispatched ∨
        BecomesRunning rt (dispatchNode rt w id traceId) id →
      Authorised rt w id traceId) ∧
    (∀ (rt : Runtime) (ops : List (Op Time)),
      Sound (runOps rt ops).2 ∧ Moves rt (runOps rt ops).1 (runOps rt ops).2) := by
  refine ⟨fun rt w id traceId node hnode hse h => ?_, fun rt ops => (runOps_sound rt ops).symm⟩
  rcases h with h | h
  · exact dispatchNode_dispatched hnode hse h
  · exact dispatchNode_dispatched hnode hse (dispatched_of_becomesRunning h)

end Orchestrator

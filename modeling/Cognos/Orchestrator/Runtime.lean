/-
# `Cognos.Orchestrator.Runtime` — submit, dispatch, execute

The run loop of `runtime.rs`.  What is outside the process comes in through worlds: the
ids that are minted, the clock, the walk orders of hash maps, the answers of HAL and of
the intent engine, the outcome of the wait for a human, and the executor.  One world
holds what one call sees; every call gets its own, so nothing ties two answers together.

`submit_and_execute` is run for a number of rounds; a run cut short is a prefix of the
run of the code.  Its trace records each dispatch with the state and the world it met,
and each node that is handed to the executor.  Latencies are left out.
-/
import Cognos.Orchestrator.IntentAdapter
import Cognos.Orchestrator.ApprovalSocket
import Cognos.Orchestrator.Scheduler

namespace Orchestrator

open Hal (GateResponse)
open Ipc (HalGateRequest HalGateResponse CognosClient ProtoIntent IntentResponse)

/-! ## Errors, outcomes, events -/

inductive OrchestratorError
  | decompositionFailed (e : String)
  | noAgent (capability : String)
  | halDenied
  | halGate (e : String)
  | internal

/-- Result of attempting to dispatch a single node, after the HAL gate. -/
inductive DispatchOutcome
  | dispatched
  | awaitingApproval (riskScore : Float)
  | denied (reason : String)

/-- Events published on the bus. -/
inductive Event
  | taskCreated (id : TaskId) (agent : AgentId)
  | taskStateChanged (id : TaskId) (old new : NodeState)

/-! ## Agents -/

structure AgentDescriptor where
  id : AgentId
  name : String
  capabilities : List String
  available : Bool

structure AgentRegistry where
  agents : AList (fun _ : AgentId => AgentDescriptor)

namespace AgentRegistry

def register (r : AgentRegistry) (d : AgentDescriptor) : AgentRegistry :=
  ⟨r.agents.insert d.id d⟩

/-- Pick an available agent that advertises `capability`. -/
def selectForCapability (r : AgentRegistry) (walk : HashOrder AgentId) (capability : String) :
    Option AgentId :=
  (((walk.1 r.agents.keys).filterMap r.agents.lookup).find? fun a =>
    a.available && a.capabilities.contains capability).map (·.id)

end AgentRegistry

/-- The agent of a node no registered agent can take. -/
def coordinator : AgentId := ⟨"agent.coordinator"⟩

/-! ## State -/

structure Runtime where
  graph : TaskGraph
  bus : List Event
  scheduler : OrchestratorScheduler
  agents : AgentRegistry
  halGate : Option CognosClient
  intentClient : Option CognosClient

namespace Runtime

def new : Runtime := ⟨.new, [], .new, ⟨∅⟩, none, none⟩

def publish (rt : Runtime) (e : Event) : Runtime := { rt with bus := e :: rt.bus }

def setState (rt : Runtime) (id : TaskId) (s : NodeState) : Runtime :=
  { rt with graph := rt.graph.setState id s }

def enqueue (rt : Runtime) (entry : SchedEntry) : Runtime :=
  { rt with scheduler := rt.scheduler.enqueue entry }

end Runtime

/-! ## Submit -/

/-- What one `submit` sees of the outside. -/
structure SubmitWorld where
  freshTrace : Uuid
  intentReply : ProtoIntent → Except String IntentResponse
  freshIds : Nat → Uuid
  agentWalk : HashOrder AgentId
  nodeWalk : HashOrder TaskId
  clock : Nat → Nat

/-- The plan of an intent: the engine's, or the local one when the engine is not reached. -/
def resolveDecomposition (rt : Runtime) (w : SubmitWorld) (intent : Intent) :
    Except OrchestratorError DecompositionPlan :=
  match rt.intentClient with
  | none => .ok (decomposeLocally intent)
  | some client =>
      match decomposeViaIntentEngine client w.freshTrace w.intentReply intent with
      | .ok plan => .ok plan
      | .error e =>
          if e.isTransport then .ok (decomposeLocally intent)
          else .error (.decompositionFailed e.text)

/-- The intent blob of a node. -/
def intentValue (sub : PlannedSubTask) : Json.Value :=
  .obj [("action", .str sub.action), ("capability", .str sub.capability),
    ("description", .str sub.description), ("target", .str sub.target)]

/-- The node of a sub-task before its id is minted. -/
def plannedTask (rt : Runtime) (w : SubmitWorld) (sub : PlannedSubTask) : TaskNode :=
  { id := ⟨.nil⟩
    agent := (rt.agents.selectForCapability w.agentWalk sub.capability).getD coordinator
    intent := intentValue sub
    state := .pending }

/-- Add the `k`-th node of a plan. -/
def addNode (rt : Runtime) (w : SubmitWorld) (k : Nat) (p : PlannedNode) : Runtime × TaskId :=
  let node := plannedTask rt w p.subTask
  let (graph, id) := rt.graph.addTask (w.freshIds k) node
  (Runtime.publish { rt with graph := graph } (.taskCreated id node.agent), id)

def addNodes (w : SubmitWorld) (rt : Runtime) (k : Nat) :
    (nodes : List PlannedNode) → Runtime × { ids : List TaskId // ids.length = nodes.length }
  | [] => (rt, ⟨[], rfl⟩)
  | p :: ps =>
      let (rt, id) := addNode rt w k p
      let (rt, ids) := addNodes w rt (k + 1) ps
      (rt, ⟨id :: ids.1, by rw [List.length_cons, List.length_cons, ids.2]⟩)

/-- Wire the edges of a plan; the first refused edge ends it. -/
def addEdges {n : Nat} (ids : { ids : List TaskId // ids.length = n }) (rt : Runtime) :
    List (Fin n × Fin n) → Except OrchestratorError Unit × Runtime
  | [] => (.ok (), rt)
  | (i, j) :: es =>
      match rt.graph.addDependency (ids.1.get (i.cast ids.2.symm)) (ids.1.get (j.cast ids.2.symm))
          .control with
      | .error e => (.error (.decompositionFailed e.text), rt)
      | .ok graph => addEdges ids { rt with graph := graph } es

/-- Enqueue the ready roots, the `k`-th reading of the clock for the first of them. -/
def enqueueRoots (w : SubmitWorld) (priority : Nat) (rt : Runtime) (k : Nat) :
    List TaskId → Runtime
  | [] => rt
  | id :: ids =>
      let rt := rt.setState id .ready
      let agent := ((rt.graph.get id).map (·.agent)).getD coordinator
      let rt := rt.enqueue ⟨id, agent, priority, w.clock k⟩
      let rt := rt.publish (.taskStateChanged id .pending .ready)
      enqueueRoots w priority rt (k + 1) ids

/-- Submit a high-level intent: the id of the first ready root. -/
def submit (rt : Runtime) (w : SubmitWorld) (intent : Intent) :
    Except OrchestratorError TaskId × Runtime :=
  match resolveDecomposition rt w intent with
  | .error e => (.error e, rt)
  | .ok plan =>
      let (rt, ids) := addNodes w rt 0 plan.nodes
      match addEdges ids rt plan.edges with
      | (.error e, rt) => (.error e, rt)
      | (.ok (), rt) =>
          match rt.graph.readyTasks w.nodeWalk with
          | [] => (.error (.decompositionFailed "intent produced zero ready sub-tasks"), rt)
          | root :: roots => (.ok root, enqueueRoots w intent.priority.value rt 0 (root :: roots))

/-! ## Dispatch -/

/-- How the wait for a human at the socket gate ends. -/
inductive Wait (Time : Type)
  | elapsed
  | taskFailed (e : String)
  | gateError (e : String)
  | answered (resp : GateResponse Time)

/-- What one `dispatch_node` sees of the outside. -/
structure GateWorld (Time : Type) where
  freshTrace : Uuid
  halReply : HalGateRequest → Except String HalGateResponse
  wait : SideEffect → String → Wait Time
  approvalTimeoutSecs : Nat

/-- A string member of the intent blob. -/
def TaskNode.field (node : TaskNode) (key : String) : Option String :=
  (node.intent.get? key).bind Json.Value.asStr?

/-- The capability a dispatch gates on. -/
def TaskNode.capability (node : TaskNode) : String :=
  (node.field "capability").getD "general.execute"

/-- The side effect of a node, as HAL is told. -/
def TaskNode.sideEffect (node : TaskNode) : SideEffect :=
  { op := (node.field "action").getD "execute"
    path := ((node.field "target").or ((node.field "path").or (node.field "description"))).getD ""
    capability := node.capability
    sourceAgent := node.agent.name }

/-- What a dispatch returns, the state it leaves, and the request it handed to the HAL client. -/
structure Dispatch where
  result : Except OrchestratorError (DispatchOutcome × Option String)
  runtime : Runtime
  sent : Option HalGateRequest

/-- Park a node until a human has answered. -/
def park (rt : Runtime) (id : TaskId) : Runtime :=
  match rt.graph.get id with
  | none => rt
  | some node =>
      (rt.setState id .awaitingHal).publish (.taskStateChanged id node.state .awaitingHal)

/-- The end of a dispatch that waited and was not approved. -/
def refuse (rt : Runtime) (id : TaskId) (reason : String) (sent : Option HalGateRequest) :
    Dispatch :=
  ⟨.ok (.denied reason, some ("denied: " ++ reason)), rt.setState id .failed, sent⟩

/-- `approval_required`: park the node, wait, and act on the answer. -/
def awaitApproval {Time : Type} (rt : Runtime) (w : GateWorld Time) (id : TaskId)
    (action : SideEffect) (traceId : String) (sent : Option HalGateRequest) : Dispatch :=
  let rt := park rt id
  match w.wait action traceId with
  | .answered resp =>
      if resp.approved then
        ⟨.ok (.dispatched, some ("user_approved (risk="
            ++ FloatText.fixed2 (FloatText.widen resp.halScore) ++ ", reason="
            ++ reasonLabel resp.reason ++ ")")), rt.setState id .running, sent⟩
      else refuse rt id ("user denied (hal_reason=" ++ reasonLabel resp.reason ++ ")") sent
  | .gateError e => refuse rt id ("approval gate error: " ++ e) sent
  | .taskFailed e => refuse rt id ("approval gate task failed: " ++ e) sent
  | .elapsed =>
      refuse rt id ("approval timeout after " ++ toString w.approvalTimeoutSecs
        ++ "s — auto-denied") sent

/-- Dispatch a single node to its agent, a side-effecting one only through HAL. -/
def dispatchNode {Time : Type} (rt : Runtime) (w : GateWorld Time) (id : TaskId)
    (traceId : String) : Dispatch :=
  match rt.graph.get id with
  | none => ⟨.error .internal, rt, none⟩
  | some node =>
      let action := node.sideEffect
      if ¬ isSideEffecting action.capability then
        ⟨.ok (.dispatched, none), rt.setState id .running, none⟩
      else
        match rt.halGate with
        | none => ⟨.error .halDenied, rt.setState id .failed, none⟩
        | some client =>
            let sent := some (gateRequest action traceId)
            match gateAction client w.freshTrace w.halReply action traceId with
            | .error e => ⟨.error (.halGate e.text), rt, sent⟩
            | .ok (.granted _ risk) =>
                ⟨.ok (.dispatched, some ("granted (risk=" ++ FloatText.fixed2 risk ++ ")")),
                  rt.setState id .running, sent⟩
            | .ok (.approvalRequired _) => awaitApproval rt w id action traceId sent
            | .ok (.denied reason risk) =>
                ⟨.ok (.denied reason, some ("denied: " ++ reason ++ " (risk="
                    ++ FloatText.fixed2 risk ++ ")")), rt.setState id .failed, sent⟩

/-! ## Submit and execute -/

/-- Per-task execution record. -/
structure TaskExecutionRecord where
  taskId : String
  action : String
  target : String
  capability : String
  agent : String
  status : String
  halDecision : Option String
  message : Option String

structure ExecutionReport where
  intentId : String
  traceId : String
  success : Bool
  summary : String
  tasks : List TaskExecutionRecord

/-- What happens in a run, as far as the gate is concerned. -/
inductive Step (Time : Type)
  /-- A dispatch of a node, with the state and the world it meets. -/
  | dispatch (rt : Runtime) (w : GateWorld Time) (id : TaskId) (traceId : String)
  /-- A node is handed to the executor. -/
  | execute (id : TaskId) (node : TaskNode)

/-- What one round of the loop sees of the outside. -/
structure RoundWorld (Time : Type) where
  gate : GateWorld Time
  pick : Nat
  execute : TaskNode → TaskResult
  clock : Nat → Nat

/-- All dependencies of a node have succeeded. -/
def dependenciesSucceeded (g : TaskGraph) (child : TaskId) : Bool :=
  (g.edges.filter (·.dst = child)).all fun e => (g.get e.src).any (·.state = .succeeded)

/-- Make one dependent ready and enqueue it, if it is pending and nothing holds it back. -/
def enqueueDependent (rt : Runtime) (child : TaskId) (time : Nat) : Runtime :=
  if dependenciesSucceeded rt.graph child then
    match rt.graph.get child with
    | none => rt
    | some node =>
        if node.state = .pending then
          (rt.setState child .ready).enqueue ⟨child, node.agent, 50, time⟩
        else rt
  else rt

def enqueueChildren (clock : Nat → Nat) (rt : Runtime) (k : Nat) : List TaskId → Runtime
  | [] => rt
  | child :: children =>
      enqueueChildren clock (enqueueDependent rt child (clock k)) (k + 1) children

def enqueueReadyDependents (clock : Nat → Nat) (rt : Runtime) (completed : TaskId) : Runtime :=
  enqueueChildren clock rt 0 ((rt.graph.edges.filter (·.src = completed)).map (·.dst))

/-- The executor's result goes into the graph, and what it frees into the queue. -/
def finishNode (clock : Nat → Nat) (rt : Runtime) (id : TaskId) (result : TaskResult) : Runtime :=
  let rt := { rt with graph := rt.graph.markCompleted id result }
  let rt := { rt with scheduler := rt.scheduler.complete id }
  enqueueReadyDependents clock rt id

/-- What became of one round: the record and whether the task succeeded, or an error. -/
structure Round (Time : Type) where
  result : Except OrchestratorError (TaskExecutionRecord × Bool)
  runtime : Runtime
  trace : List (Step Time)

/-- One round on the entry the scheduler gave. -/
def round {Time : Type} (rt : Runtime) (w : RoundWorld Time) (id : TaskId) (traceId : String) :
    Round Time :=
  match rt.graph.get id with
  | none => ⟨.error .internal, rt, []⟩
  | some node =>
      let record (status : String) (note message : Option String) : TaskExecutionRecord :=
        { taskId := id.id.text
          action := (node.field "action").getD ""
          target := (node.field "target").getD ""
          capability := (node.field "capability").getD ""
          agent := node.agent.name
          status := status
          halDecision := note
          message := message }
      let d := dispatchNode rt w.gate id traceId
      let step : Step Time := .dispatch rt w.gate id traceId
      match d.result with
      | .error e => ⟨.error e, d.runtime, [step]⟩
      | .ok (.dispatched, note) =>
          match d.runtime.graph.get id with
          | none => ⟨.error .internal, d.runtime, [step]⟩
          | some snapshot =>
              let result := w.execute snapshot
              let ok := result.error.isNone
              let message := result.error.or
                ((result.output.get? "message").bind Json.Value.asStr?)
              ⟨.ok (record (if ok then "succeeded" else "failed") note message, ok),
                finishNode w.clock d.runtime id result, [step, .execute id snapshot]⟩
      | .ok (.awaitingApproval _, note) =>
          ⟨.ok (record "awaiting_hal" note note, false), d.runtime, [step]⟩
      | .ok (.denied reason, note) =>
          ⟨.ok (record "denied" note (some reason), false), d.runtime, [step]⟩

/-- The records of a run, the state it leaves and its trace; `none` when rounds ran out. -/
structure Execution (Time : Type) where
  result : Option (Except OrchestratorError (List TaskExecutionRecord))
  runtime : Runtime
  trace : List (Step Time)

/-- `while let Some(entry) = scheduler.next()`. -/
def execLoop {Time : Type} (worlds : Nat → RoundWorld Time) (traceId : String) :
    Nat → Nat → Runtime → List TaskExecutionRecord → Execution Time
  | 0, _, rt, _ => ⟨none, rt, []⟩
  | rounds + 1, k, rt, tasks =>
      match rt.scheduler.next (worlds k).pick with
      | none => ⟨some (.ok tasks), rt, []⟩
      | some (entry, scheduler) =>
          let r := round { rt with scheduler := scheduler } (worlds k) entry.taskId traceId
          match r.result with
          | .error e => ⟨some (.error e), r.runtime, r.trace⟩
          | .ok (task, success) =>
              if !success && task.status != "awaiting_hal" then
                ⟨some (.ok (tasks ++ [task])), r.runtime, r.trace⟩
              else
                let rest := execLoop worlds traceId rounds (k + 1) r.runtime (tasks ++ [task])
                { rest with trace := r.trace ++ rest.trace }

/-- What one `submit_and_execute` sees of the outside. -/
structure ExecWorld (Time : Type) where
  intentId : Uuid
  submit : SubmitWorld
  rounds : Nat
  round : Nat → RoundWorld Time

def resetExecutionState (rt : Runtime) : Runtime := { rt with graph := .new, scheduler := .new }

/-- The report of a finished loop. -/
def report (intentId traceId : String) (tasks : List TaskExecutionRecord) : ExecutionReport :=
  let overall := !tasks.isEmpty && tasks.all (·.status == "succeeded")
  { intentId := intentId
    traceId := traceId
    success := overall
    summary :=
      if overall then "completed " ++ toString tasks.length ++ " task(s)"
      else "finished with failures — last status: "
        ++ ((tasks.getLast?.map (·.status)).getD "none")
    tasks := tasks }

/-- Submit an intent and run the scheduler until idle. -/
def submitAndExecute {Time : Type} (rt : Runtime) (w : ExecWorld Time)
    (utterance userId traceId : String) :
    Option (Except OrchestratorError ExecutionReport) × Runtime × List (Step Time) :=
  let rt := resetExecutionState rt
  let intent := Intent.new w.intentId userId utterance
  match submit rt w.submit intent with
  | (.error e, rt) => (some (.error e), rt, [])
  | (.ok _, rt) =>
      let e := execLoop w.round traceId w.rounds 0 rt []
      (e.result.map (·.map (report intent.id.id.text traceId)), e.runtime, e.trace)

end Orchestrator

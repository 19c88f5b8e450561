/-
# `Cognos.Orchestrator.IntentAdapter` — from an action graph to a plan

`intent_adapter.rs`: the capability an action needs, the plan of a graph the intent
engine answers with, and the plan of the local classifier.  A plan's edges are pairs of
positions in its node list, so an edge to nowhere cannot be written down.
-/
import Cognos.Ipc.Wire
import Cognos.Orchestrator.Intent

namespace Orchestrator

open Ipc (IntentActionNode IntentActionEdge IntentActionGraph IntentResponse ProtoIntent
  CognosClient)

/-! ## Errors -/

inductive DecomposeError
  | transport (e : String)
  | invalidResponse (e : String)

def DecomposeError.text : DecomposeError → String
  | .transport e => "intent-engine transport error: " ++ e
  | .invalidResponse e => "intent-engine response invalid: " ++ e

def DecomposeError.isTransport : DecomposeError → Bool
  | .transport _ => true
  | .invalidResponse _ => false

/-! ## Plans -/

/-- A sub-task the orchestrator knows how to schedule. -/
structure PlannedSubTask where
  description : String
  capability : String
  action : String
  target : String

structure PlannedNode where
  subTask : PlannedSubTask
  protoNodeId : Option String

/-- Nodes and dependency edges; the second node of an edge waits for the first. -/
structure DecompositionPlan where
  nodes : List PlannedNode
  edges : List (Fin nodes.length × Fin nodes.length)

/-! ## Action to capability -/

/-- The capability of an action whose name is in lower case. -/
def capabilityOf (lower : String) : String :=
  if Text.contains lower "delete" || lower == "file.delete" || Text.contains lower "delete_files"
      || lower == "delete_path" then
    "file.write"
  else if Text.contains lower "move" || Text.contains lower "rename" || lower == "file.move" then
    "file.write"
  else if Text.contains lower "search" || Text.contains lower "find" || lower == "file.search" then
    "file.read"
  else if Text.startsWith lower "file." || lower == "open_files" || lower == "create_dir"
      || lower == "create_file" || lower == "execute_open" then
    if lower == "create_dir" || lower == "create_file" || Text.contains lower "create" then
      "file.write"
    else "file.read"
  else if Text.contains lower "validate" || Text.contains lower "test"
      || lower == "coding.validate" then
    "coding.validate"
  else if Text.contains lower "plan" || lower == "coding.plan" || lower == "create_plan" then
    "coding.plan"
  else if Text.startsWith lower "coding." || Text.contains lower "implement"
      || Text.contains lower "debug" || Text.contains lower "refactor"
      || lower == "execute_code" then
    "coding.execute"
  else if Text.contains lower "install" || lower == "install_package"
      || Text.startsWith lower "pkg." then
    "pkg.execute"
  else if Text.contains lower "security_check" || Text.contains lower "review" then
    "security.review"
  else if Text.contains lower "analyze" || Text.contains lower "audit" then
    "security.analyze"
  else if Text.startsWith lower "security." || lower == "gather_state" then
    "security.read"
  else if Text.startsWith lower "memory." || lower == "resolve_target"
      || lower == "memory_search" then
    "memory.read"
  else if Text.startsWith lower "system." then
    "system.config"
  else if Text.startsWith lower "intent." || lower == "disambiguate" then
    "intent.disambiguate"
  else "general.execute"

/-- Map a canonical action name to the capability an agent must advertise to execute it. -/
def actionToCapability (action : String) : String := capabilityOf (Text.toLowercase action)

/-! ## Plan of an action graph -/

def protoNodeToSubTask (node : IntentActionNode) : PlannedSubTask :=
  { description :=
      if node.target = "" then "Execute " ++ node.action ++ " via intent-engine"
      else node.action ++ " → " ++ node.target
    capability := actionToCapability node.action
    action := node.action
    target := node.target }

def plannedNode (node : IntentActionNode) : PlannedNode :=
  ⟨protoNodeToSubTask node, some node.nodeId⟩

/-- The position of a node id; of two nodes with one id the later one counts. -/
def idToIdx (nodes : List IntentActionNode) (id : String) : Option (Fin nodes.length) :=
  (List.finRange nodes.length).reverse.find? (fun i => (nodes.get i).nodeId == id)

/-- The edges of a graph as pairs of positions, or the first end that is unknown. -/
def planEdges (nodes : List IntentActionNode) :
    List IntentActionEdge → Except DecomposeError (List (Fin nodes.length × Fin nodes.length))
  | [] => .ok []
  | e :: es =>
      match idToIdx nodes e.fromNode, idToIdx nodes e.toNode with
      | none, _ => .error (.invalidResponse ("unknown edge source node: " ++ e.fromNode))
      | some _, none => .error (.invalidResponse ("unknown edge target node: " ++ e.toNode))
      | some i, some j =>
          match planEdges nodes es with
          | .error err => .error err
          | .ok rest => .ok ((i, j) :: rest)

/-- The edges out of a visited node are taken off the indegrees; what reaches zero is queued. -/
def relax (id : Nat) (edges : List (Nat × Nat)) (st : List Nat × List Nat) :
    List Nat × List Nat :=
  edges.foldl (fun st e =>
    if e.1 = id ∧ e.2 < st.1.length then
      let d := st.1.getD e.2 0 - 1
      (st.1.set e.2 d, if d = 0 then st.2 ++ [e.2] else st.2)
    else st) st

/-- Kahn's loop: how many nodes it visits.  A node is queued once, so as many rounds as there
are nodes empty the queue. -/
def kahn (edges : List (Nat × Nat)) : Nat → List Nat × List Nat → Nat
  | 0, _ => 0
  | _ + 1, (_, []) => 0
  | rounds + 1, (indegree, id :: queue) => kahn edges rounds (relax id edges (indegree, queue)) + 1

/-- Kahn topological sort: `true` when a cycle is present. -/
def hasCycle (nodeCount : Nat) (edges : List (Nat × Nat)) : Bool :=
  let indegree := (List.range nodeCount).map (fun i => (edges.filter (·.2 = i)).length)
  let queue := (List.range nodeCount).filter (fun i => indegree.getD i 0 = 0)
  kahn edges nodeCount (indegree, queue) != nodeCount

/-- Convert an action graph into a plan; unknown ends of edges and cycles are refused. -/
def protoGraphToPlan (graph : IntentActionGraph) : Except DecomposeError DecompositionPlan :=
  if graph.nodes = [] then .error (.invalidResponse "action graph has no nodes")
  else
    match planEdges graph.nodes graph.deps with
    | .error e => .error e
    | .ok edges =>
        if hasCycle graph.nodes.length (edges.map fun e => (e.1.val, e.2.val)) then
          .error (.invalidResponse "action graph contains a cycle")
        else
          have hlen : graph.nodes.length = (graph.nodes.map plannedNode).length := by simp
          .ok ⟨graph.nodes.map plannedNode, edges.map fun e => (e.1.cast hlen, e.2.cast hlen)⟩

/-! ## Intent engine and fallback -/

def responseToPlan (resp : IntentResponse) : Except DecomposeError DecompositionPlan :=
  if resp.status ≠ "ok" then
    .error (.invalidResponse ("status=" ++ resp.status ++ " message=" ++ resp.message))
  else
    match resp.actionGraph with
    | none => .error (.invalidResponse "missing action_graph")
    | some graph => protoGraphToPlan graph

def decomposeViaIntentEngine (client : CognosClient) (fresh : Uuid)
    (reply : ProtoIntent → Except String IntentResponse) (intent : Intent) :
    Except DecomposeError DecompositionPlan :=
  match client.dispatchIntent fresh reply
      { intentId := intent.id.id.text, utterance := intent.text, sessionId := intent.userId } with
  | .error e => .error (.transport e.text)
  | .ok resp => responseToPlan resp

/-- The plan of the local keyword classifier: a linear chain. -/
def decomposeLocally (intent : Intent) : DecompositionPlan :=
  let nodes := (decomposeIntoTasks (classifyIntent intent.text) intent).map fun sub =>
    (⟨⟨sub.description, sub.capability, sub.action, ""⟩, none⟩ : PlannedNode)
  ⟨nodes, (List.finRange nodes.length).filterMap fun j =>
    if h : 0 < j.val then some (⟨j.val - 1, by omega⟩, j) else none⟩

/-! ## What a plan is made of -/

theorem planned_of_mem {graph : IntentActionGraph} {plan : DecompositionPlan}
    (h : protoGraphToPlan graph = .ok plan) {p : PlannedNode} (hp : p ∈ plan.nodes) :
    ∃ node ∈ graph.nodes, p = plannedNode node := by
  unfold protoGraphToPlan at h
  split_ifs at h
  split at h
  · cases h
  · split_ifs at h
    cases h
    obtain ⟨node, hn, rfl⟩ := List.mem_map.mp hp
    exact ⟨node, hn, rfl⟩

/-- A planned node asks for the capability of its action. -/
theorem planned_capability {graph : IntentActionGraph} {plan : DecompositionPlan}
    (h : protoGraphToPlan graph = .ok plan) {p : PlannedNode} (hp : p ∈ plan.nodes) :
    p.subTask.capability = actionToCapability p.subTask.action := by
  obtain ⟨node, -, rfl⟩ := planned_of_mem h hp
  simp only [plannedNode, protoNodeToSubTask]

end Orchestrator

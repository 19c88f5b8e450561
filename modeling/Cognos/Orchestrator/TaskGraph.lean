/-
# `Cognos.Orchestrator.TaskGraph` — the graph of tasks

`task_graph.rs`: nodes by id, edges as a flat list, and the operations the run loop
uses.  A node's input and output slots and its retry count are read nowhere and left
out.  The ids `add_task` mints and the order in which a hash map is walked come from
outside: the first as a `fresh` argument, the second as a `HashOrder`.

Every operation on one node leaves the others alone; these frame facts
(`get_setState`) are all the run loop is reasoned about with.
-/
import Mathlib.Data.List.AList
import Cognos.Lib.Uuid

namespace Orchestrator

/-! ## Types -/

/-- Unique identifier for a task node within the graph. -/
structure TaskId where
  id : Uuid
  deriving DecidableEq

/-- Unique identifier for an agent. -/
structure AgentId where
  name : String
  deriving DecidableEq

/-- Lifecycle state of a task node. -/
inductive NodeState
  | pending | ready | running | succeeded | failed | skipped | awaitingHal
  deriving DecidableEq, Repr

/-- Result payload produced by completing a task. -/
structure TaskResult where
  output : Json.Value
  error : Option String

/-- A unit of work, owned by one agent; `intent` says what it is. -/
structure TaskNode where
  id : TaskId
  agent : AgentId
  intent : Json.Value
  state : NodeState

inductive EdgeKind
  | data (slot : String)
  | control
  deriving DecidableEq

structure Edge where
  src : TaskId
  dst : TaskId
  kind : EdgeKind
  deriving DecidableEq

inductive GraphError
  | cycleDetected (src dst : TaskId)
  | missingNode (id : TaskId)
  | duplicateEdge (src dst : TaskId)

def TaskId.debug (t : TaskId) : String := "TaskId(" ++ t.id.text ++ ")"

def GraphError.text : GraphError → String
  | .cycleDetected a b => "cycle detected when adding edge " ++ a.debug ++ " -> " ++ b.debug
  | .missingNode a => "missing node: " ++ a.debug
  | .duplicateEdge a b => "duplicate edge " ++ a.debug ++ " -> " ++ b.debug

structure TaskGraph where
  nodes : AList (fun _ : TaskId => TaskNode)
  edges : List Edge

/-- The order a hash map is walked in: any, but nothing is missed or met twice. -/
def HashOrder (α : Type) := { order : List α → List α // ∀ keys, (order keys).Perm keys }

/-- The order of the list that models the map. -/
def HashOrder.listed (α : Type) : HashOrder α := ⟨id, fun _ => .rfl⟩

namespace TaskGraph

/-! ## Operations -/

def new : TaskGraph := ⟨∅, []⟩

def get (g : TaskGraph) (id : TaskId) : Option TaskNode := g.nodes.lookup id

/-- Add a node; a nil id is replaced by a fresh one.  The second result is the id. -/
def addTask (g : TaskGraph) (fresh : Uuid) (node : TaskNode) : TaskGraph × TaskId :=
  let node := if node.id.id = Uuid.nil then { node with id := ⟨fresh⟩ } else node
  ({ g with nodes := g.nodes.insert node.id node }, node.id)

/-- The search of `reachable`: a node met again is passed over, and the successors of a new
one go on the stack.  The stack is pushed at most once per edge. -/
def search (edges : List Edge) (dst : TaskId) : Nat → List TaskId → List TaskId → Bool
  | 0, _, _ => false
  | _ + 1, _, [] => false
  | rounds + 1, visited, cur :: stack =>
      if cur ∈ visited then search edges dst rounds visited stack
      else
        let next := (edges.filter (·.src = cur)).map (·.dst)
        if dst ∈ next then true
        else search edges dst rounds (cur :: visited) (next.reverse ++ stack)

/-- True iff there is a directed path from `src` to `dst` along the existing edges. -/
def reachable (g : TaskGraph) (src dst : TaskId) : Bool :=
  src = dst || search g.edges dst (g.edges.length + 2) [] [src]

/-- Add a directed edge; a missing end, a repeated edge or a cycle is refused. -/
def addDependency (g : TaskGraph) (src dst : TaskId) (kind : EdgeKind) :
    Except GraphError TaskGraph :=
  if (g.get src).isNone then .error (.missingNode src)
  else if (g.get dst).isNone then .error (.missingNode dst)
  else if ⟨src, dst, kind⟩ ∈ g.edges then .error (.duplicateEdge src dst)
  else if g.reachable dst src then .error (.cycleDetected src dst)
  else .ok { g with edges := g.edges ++ [⟨src, dst, kind⟩] }

/-- A dependency in this state no longer holds its dependents back. -/
def terminal : Option NodeState → Bool
  | some .succeeded | some .failed | some .skipped => true
  | _ => false

/-- The pending nodes whose dependencies are all in a terminal state. -/
def readyTasks (g : TaskGraph) (walk : HashOrder TaskId) : List TaskId :=
  (walk.1 g.nodes.keys).filter fun id =>
    (g.get id).any fun n => n.state = .pending &&
      (g.edges.filter (·.dst = n.id)).all fun e => terminal ((g.get e.src).map (·.state))

/-- `if let Some(node) = graph.get_mut(id) { node.state = s; }`. -/
def setState (g : TaskGraph) (id : TaskId) (s : NodeState) : TaskGraph :=
  match g.nodes.lookup id with
  | some node => { g with nodes := g.nodes.insert id { node with state := s } }
  | none => g

def markRunning (g : TaskGraph) (id : TaskId) : TaskGraph := g.setState id .running

def markCompleted (g : TaskGraph) (id : TaskId) (result : TaskResult) : TaskGraph :=
  g.setState id (if result.error.isNone then .succeeded else .failed)

/-! ## What an operation leaves alone -/

@[simp] theorem get_setState (g : TaskGraph) (id : TaskId) (s : NodeState) (id' : TaskId) :
    (g.setState id s).get id' =
      if id' = id then (g.get id).map ({ · with state := s }) else g.get id' := by
  unfold setState get
  split
  · next node h =>
      by_cases hid : id' = id
      · subst hid
        simp [h]
      · simp [hid]
  · next h =>
      by_cases hid : id' = id
      · subst hid
        simp [h]
      · simp [hid]

@[simp] theorem edges_setState (g : TaskGraph) (id : TaskId) (s : NodeState) :
    (g.setState id s).edges = g.edges := by
  unfold setState
  split <;> rfl

theorem get_addTask (g : TaskGraph) (fresh : Uuid) (node : TaskNode) (id' : TaskId) :
    (g.addTask fresh node).1.get id' =
      if id' = (g.addTask fresh node).2 then
        some { node with id := (g.addTask fresh node).2 }
      else g.get id' := by
  unfold addTask get
  by_cases hid : id' = (if node.id.id = Uuid.nil then { node with id := ⟨fresh⟩ } else node).id
  · subst hid
    simp only [if_true, AList.lookup_insert]
    split_ifs <;> rfl
  · simp only [if_neg hid]
    exact AList.lookup_insert_ne hid

theorem get_addDependency {g g' : TaskGraph} {src dst : TaskId} {kind : EdgeKind}
    (h : g.addDependency src dst kind = .ok g') (id : TaskId) : g'.get id = g.get id := by
  unfold addDependency at h
  split_ifs at h
  cases h
  rfl

theorem get_of_mem_readyTasks {g : TaskGraph} {walk : HashOrder TaskId} {id : TaskId}
    (h : id ∈ g.readyTasks walk) : ∃ n, g.get id = some n ∧ n.state = .pending := by
  obtain ⟨-, h⟩ := List.mem_filter.mp h
  cases hg : g.get id with
  | none => simp [hg] at h
  | some n =>
      simp only [hg, Option.any_some, Bool.and_eq_true, decide_eq_true_eq] at h
      exact ⟨n, rfl, h.1⟩

end TaskGraph

end Orchestrator

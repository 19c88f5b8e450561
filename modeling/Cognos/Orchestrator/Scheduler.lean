/-
# `Cognos.Orchestrator.Scheduler` — which ready task comes next

`scheduler.rs`: a binary heap of entries, higher priority first and among equals the
earlier one.  Entries that compare equal may leave the heap in any order, so `next`
takes the choice among the greatest ones as an argument.  The fair-share table is
stored and never read, and a deadline is never set; both are left out.
-/
import Cognos.Orchestrator.TaskGraph

namespace Orchestrator

/-- A single entry in the scheduler queue. -/
structure SchedEntry where
  taskId : TaskId
  agent : AgentId
  priority : Nat
  submittedAt : Nat
  deriving DecidableEq

/-- `a` is not greater than `b`: lower priority, or the same and not submitted earlier. -/
def SchedEntry.le (a b : SchedEntry) : Bool :=
  a.priority < b.priority || (a.priority = b.priority && b.submittedAt ≤ a.submittedAt)

structure OrchestratorScheduler where
  queue : List SchedEntry
  inFlight : List TaskId

namespace OrchestratorScheduler

def new : OrchestratorScheduler := ⟨[], []⟩

def enqueue (s : OrchestratorScheduler) (entry : SchedEntry) : OrchestratorScheduler :=
  { s with queue := entry :: s.queue }

/-- The entries nothing in the queue is greater than. -/
def greatest (s : OrchestratorScheduler) : List SchedEntry :=
  s.queue.filter fun a => s.queue.all fun b => b.le a

/-- Pop the next entry and mark it as in flight; `pick` chooses among equals. -/
def next (s : OrchestratorScheduler) (pick : Nat) : Option (SchedEntry × OrchestratorScheduler) :=
  match s.greatest[pick % s.greatest.length]? with
  | none => none
  | some e => some (e, { queue := s.queue.erase e, inFlight := e.taskId :: s.inFlight })

def complete (s : OrchestratorScheduler) (id : TaskId) : OrchestratorScheduler :=
  { s with inFlight := s.inFlight.filter (· ≠ id) }

end OrchestratorScheduler

end Orchestrator

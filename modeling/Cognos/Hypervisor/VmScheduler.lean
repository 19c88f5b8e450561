/-
# `Cognos.Hypervisor.VmScheduler` — the fleet of authority VMs

`hypervisor/src/runtime.rs`: VMs are spawned and killed, and a loop picks the next one of a
queue, which it rotates.

    queue_perm        the queue holds the live VMs, each once
    mem_picks         a VM at place `p` is picked within `p + 1` turns, whatever is spawned and
                      killed meanwhile
    picked_of_live    so a live VM waits no longer than there are live VMs

An id is a fresh UUID: none that a VM has or had.
-/
import Mathlib.Data.List.AList
import Cognos.Lib.Run

namespace Hypervisor

/-- A UUID. -/
abbrev VmId := BitVec 128

abbrev AgentId := BitVec 128

/-! ## The machine -/

structure VmProgram where
  bytecode : List UInt8
  entry : UInt32
  constants : List UInt64
deriving DecidableEq

inductive VmFault
  | illegalInstruction
  | outOfMemory
  | capabilityViolation
  | stackOverflow
  | hostCallFailed
deriving DecidableEq

inductive VmState
  | halted
  | running
  | awaitingHostCall
  | faulted (f : VmFault)
deriving DecidableEq

/-- One VM per running agent. -/
structure AuthorityVm where
  id : VmId
  agent : AgentId
  program : VmProgram
  capabilities : List String
  state : VmState
  instructionCount : UInt64

namespace AuthorityVm

/-- A new VM under the id, which is drawn at random. -/
def new (id : VmId) (agent : AgentId) (program : VmProgram) (caps : List String) : AuthorityVm :=
  ⟨id, agent, program, caps, .halted, 0⟩

/-- `run`, which executes nothing yet. -/
def run (vm : AuthorityVm) : AuthorityVm := { vm with state := .halted }

end AuthorityVm

/-- Per-VM scheduling metadata. -/
structure VmSchedEntry where
  vmId : VmId
  priority : UInt8
  slicesConsumed : UInt64
deriving DecidableEq

/-- The queue of the scheduler; the policy and the length of a slice are not looked at. -/
structure VmScheduler where
  queue : List VmSchedEntry

namespace VmScheduler

/-- The head of the queue, which goes to its end. -/
def next (s : VmScheduler) : Option VmSchedEntry × VmScheduler :=
  match s.queue with
  | [] => (none, s)
  | head :: rest => (some head, ⟨rest ++ [head]⟩)

def enqueue (s : VmScheduler) (vmId : VmId) (priority : UInt8) : VmScheduler :=
  ⟨s.queue ++ [⟨vmId, priority, 0⟩]⟩

def dequeue (s : VmScheduler) (vmId : VmId) : VmScheduler :=
  ⟨s.queue.filter fun e => e.vmId ≠ vmId⟩

end VmScheduler

/-! ## The runtime -/

inductive HypervisorError
  | spawnFailed (text : String)
  | vmNotFound (vm : VmId)
deriving DecidableEq

structure HypervisorRuntime where
  vms : AList fun _ : VmId => AuthorityVm
  scheduler : VmScheduler

namespace HypervisorRuntime

def new : HypervisorRuntime := ⟨∅, ⟨[]⟩⟩

/-- `spawn`, with the id that was drawn. -/
def spawn (r : HypervisorRuntime) (vmId : VmId) (agent : AgentId) (program : VmProgram)
    (caps : List String) : Except HypervisorError VmId × HypervisorRuntime :=
  if program.bytecode = [] then (.error (.spawnFailed "empty program"), r)
  else
    (.ok vmId, { r with
      vms := r.vms.insert vmId (.new vmId agent program caps)
      scheduler := r.scheduler.enqueue vmId 0 })

def kill (r : HypervisorRuntime) (vm : VmId) : Except HypervisorError Unit × HypervisorRuntime :=
  match r.vms.lookup vm with
  | none => (.error (.vmNotFound vm), r)
  | some _ => (.ok (), { r with vms := r.vms.erase vm, scheduler := r.scheduler.dequeue vm })

/-- One turn of the loop of `run`: the entry that was picked. -/
def turn (r : HypervisorRuntime) : Option VmSchedEntry × HypervisorRuntime :=
  match r.scheduler.next with
  | (none, scheduler) => (none, { r with scheduler := scheduler })
  | (some entry, scheduler) =>
      match r.vms.lookup entry.vmId with
      | none => (some entry, { r with scheduler := scheduler })
      | some vm =>
          (some entry, { r with
            vms := r.vms.replace entry.vmId vm.run
            scheduler := scheduler })

/-- What happens to a runtime, one thing at a time. -/
inductive Op
  | spawn (vmId : VmId) (agent : AgentId) (program : VmProgram) (caps : List String)
  | kill (vm : VmId)
  | turn
deriving DecidableEq

def step (r : HypervisorRuntime) : Op → HypervisorRuntime
  | .spawn vmId agent program caps => (r.spawn vmId agent program caps).2
  | .kill vm => (r.kill vm).2
  | .turn => r.turn.2

/-- The VMs that are picked in the turns of a run. -/
def picks (r : HypervisorRuntime) : List Op → List VmId
  | [] => []
  | .turn :: ops =>
      match r.turn with
      | (none, r) => r.picks ops
      | (some entry, r) => entry.vmId :: r.picks ops
  | op :: ops => (r.step op).picks ops

/-- The ids in the queue. -/
def waiting (r : HypervisorRuntime) : List VmId := r.scheduler.queue.map (·.vmId)

/-! ## What one step does to the queue -/

theorem waiting_spawn (r : HypervisorRuntime) (vmId : VmId) (agent : AgentId)
    (program : VmProgram) (caps : List String) :
    (r.spawn vmId agent program caps).2.waiting =
      if program.bytecode = [] then r.waiting else r.waiting ++ [vmId] := by
  rw [spawn]
  split
  · rfl
  · simp [waiting, VmScheduler.enqueue]

theorem waiting_kill (r : HypervisorRuntime) (vm : VmId) :
    (r.kill vm).2.waiting =
      if vm ∈ r.vms then r.waiting.filter (· ≠ vm) else r.waiting := by
  rw [kill]
  cases hlookup : r.vms.lookup vm with
  | none => rw [if_neg (AList.lookup_eq_none.mp hlookup)]
  | some v =>
      rw [if_pos (AList.lookup_isSome.mp (by rw [hlookup]; rfl))]
      simp [waiting, VmScheduler.dequeue, List.filter_map, Function.comp_def]

/-- The head of the queue is picked and goes to its end. -/
theorem turn_cons {r : HypervisorRuntime} {vm : VmId} {rest : List VmId}
    (h : r.waiting = vm :: rest) :
    ∃ entry, r.turn.1 = some entry ∧ entry.vmId = vm ∧ r.turn.2.waiting = rest ++ [vm] ∧
      r.turn.2.vms.keys = r.vms.keys := by
  cases hqueue : r.scheduler.queue with
  | nil =>
      rw [waiting, hqueue] at h
      cases h
  | cons entry queue =>
      rw [waiting, hqueue, List.map_cons] at h
      obtain ⟨rfl, rfl⟩ := List.cons.inj h
      refine ⟨entry, ?_⟩
      have hnext : r.scheduler.next = (some entry, ⟨queue ++ [entry]⟩) := by
        rw [VmScheduler.next, hqueue]
      rw [turn, hnext]
      cases hlookup : r.vms.lookup entry.vmId with
      | none => simp [waiting, hlookup]
      | some vm => simp [waiting, hlookup, AList.keys_replace]

theorem turn_nil {r : HypervisorRuntime} (h : r.waiting = []) :
    r.turn.1 = none ∧ r.turn.2 = r := by
  have hqueue : r.scheduler.queue = [] := List.map_eq_nil_iff.mp h
  have hnext : r.scheduler.next = (none, r.scheduler) := by
    rw [VmScheduler.next, hqueue]
  rw [turn, hnext]
  exact ⟨rfl, rfl⟩

/-! ## The queue and the live VMs -/

/-- The queue holds the live VMs, each once. -/
def Consistent (r : HypervisorRuntime) : Prop := r.waiting.Perm r.vms.keys

/-- A drawn id is new. -/
def Fresh (r : HypervisorRuntime) : Op → Prop
  | .spawn vmId _ _ _ => vmId ∉ r.vms
  | _ => True

theorem consistent_step {r : HypervisorRuntime} {op : Op} (h : r.Consistent) (hfresh : r.Fresh op) :
    (r.step op).Consistent := by
  cases op with
  | spawn vmId agent program caps =>
      show (r.spawn vmId agent program caps).2.Consistent
      rw [Consistent, waiting_spawn]
      by_cases hempty : program.bytecode = []
      · rw [if_pos hempty, spawn, if_pos hempty]
        exact h
      · have hkeys : (r.spawn vmId agent program caps).2.vms.keys = vmId :: r.vms.keys := by
          rw [spawn, if_neg hempty]
          show (r.vms.insert vmId _).keys = _
          rw [AList.keys_insert, List.erase_of_not_mem (mt AList.mem_keys.mpr hfresh)]
        rw [if_neg hempty, hkeys]
        exact (List.perm_append_singleton vmId r.waiting).trans (h.cons vmId)
  | kill vm =>
      show (r.kill vm).2.Consistent
      rw [Consistent, waiting_kill]
      by_cases hlive : vm ∈ r.vms
      · have hkeys : (r.kill vm).2.vms.keys = r.vms.keys.filter (· ≠ vm) := by
          obtain ⟨v, hv⟩ := Option.isSome_iff_exists.mp (AList.lookup_isSome.mpr hlive)
          simp only [kill, hv, AList.keys_erase]
          rw [r.vms.keys_nodup.erase_eq_filter vm]
          exact List.filter_congr fun other _ => Bool.eq_iff_iff.mpr (by simp)
        rw [if_pos hlive, hkeys]
        exact h.filter _
      · have hsame : (r.kill vm).2 = r := by
          simp only [kill, AList.lookup_eq_none.mpr hlive]
        rw [if_neg hlive, hsame]
        exact h
  | turn =>
      show r.turn.2.Consistent
      cases hwaiting : r.waiting with
      | nil =>
          rw [(turn_nil hwaiting).2]
          exact h
      | cons vm rest =>
          obtain ⟨entry, -, -, hrest, hkeys⟩ := turn_cons hwaiting
          rw [Consistent, hrest, hkeys]
          rw [Consistent, hwaiting] at h
          exact (List.perm_append_singleton vm rest).trans h

/-- In every run whose ids are fresh, the queue holds the live VMs, each once. -/
theorem queue_perm {ops : List Op} (hfresh : Run.Along step Fresh new ops) :
    (Run.after step new ops).Consistent :=
  Run.invariant step (I := Consistent) (P := Fresh) (fun _ _ h hop => consistent_step h hop)
    (List.Perm.refl []) hfresh

/-! ## Waiting -/

/-- How many turns a run has. -/
def turns (ops : List Op) : Nat := ops.countP fun op => op matches .turn

/-- A VM that is not killed gets no further back in the queue but by being picked. -/
theorem mem_picks {r : HypervisorRuntime} {vm : VmId} {ahead behind : List VmId}
    (h : r.waiting = ahead ++ vm :: behind) {ops : List Op} (halive : ∀ op ∈ ops, op ≠ .kill vm)
    (hturns : ahead.length < turns ops) : vm ∈ r.picks ops := by
  induction ops generalizing r ahead behind with
  | nil => exact absurd hturns (Nat.not_lt_zero _)
  | cons op ops ih =>
      obtain ⟨hop, hrest⟩ := List.forall_mem_cons.mp halive
      cases op with
      | turn =>
          cases ahead with
          | nil =>
              obtain ⟨entry, hpicked, rfl, -, -⟩ := turn_cons h
              rw [picks]
              cases hturn : r.turn with
              | mk picked r' =>
                  rw [hturn] at hpicked
                  obtain rfl : picked = some entry := hpicked
                  exact List.mem_cons_self
          | cons first ahead =>
              obtain ⟨entry, hpicked, -, hwaiting, -⟩ := turn_cons h
              rw [picks]
              cases hturn : r.turn with
              | mk picked r' =>
                  rw [hturn] at hpicked hwaiting
                  obtain rfl : picked = some entry := hpicked
                  have hwait : r'.waiting = ahead ++ vm :: (behind ++ [first]) := by
                    rw [hwaiting]
                    simp
                  refine List.mem_cons_of_mem _ (ih hwait hrest ?_)
                  · simp only [turns, List.countP_cons, List.length_cons] at hturns ⊢
                    simpa using hturns
      | spawn vmId agent program caps =>
          show vm ∈ (r.spawn vmId agent program caps).2.picks ops
          have hwait : (r.spawn vmId agent program caps).2.waiting =
              ahead ++ vm :: if program.bytecode = [] then behind else behind ++ [vmId] := by
            rw [waiting_spawn, h]
            split <;> simp
          exact ih hwait hrest (by simpa [turns] using hturns)
      | kill other =>
          have hother : vm ≠ other := fun heq => hop (by rw [heq])
          show vm ∈ (r.kill other).2.picks ops
          by_cases hlive : other ∈ r.vms
          · have hwait : (r.kill other).2.waiting =
                ahead.filter (· ≠ other) ++ vm :: behind.filter (· ≠ other) := by
              rw [waiting_kill, if_pos hlive, h]
              simp [hother]
            refine ih hwait hrest (Nat.lt_of_le_of_lt (List.length_filter_le _ _) ?_)
            simpa [turns] using hturns
          · have hwait : (r.kill other).2.waiting = ahead ++ vm :: behind := by
              rw [waiting_kill, if_neg hlive, h]
            exact ih hwait hrest (by simpa [turns] using hturns)

/-- In every run, a live VM that is not killed is picked before there were more turns than
there are live VMs. -/
theorem picked_of_live {ops : List Op} (hfresh : Run.Along step Fresh new ops) {vm : VmId}
    (hlive : vm ∈ (Run.after step new ops).vms) {more : List Op}
    (halive : ∀ op ∈ more, op ≠ .kill vm)
    (hturns : (Run.after step new ops).vms.keys.length ≤ turns more) :
    vm ∈ (Run.after step new ops).picks more := by
  have hperm := queue_perm hfresh
  obtain ⟨ahead, behind, hsplit⟩ :=
    List.append_of_mem (hperm.mem_iff.mpr (AList.mem_keys.mp hlive))
  refine mem_picks hsplit halive (Nat.lt_of_lt_of_le ?_ hturns)
  rw [← hperm.length_eq, hsplit, List.length_append, List.length_cons]
  omega

/-- Two agents are spawned, the second while the first has its turn. -/
def twoAgents : List Op :=
  [.spawn 1 7 ⟨[0, 0, 0, 0], 0, []⟩ [], .turn, .spawn 2 8 ⟨[1, 0, 0, 0], 0, []⟩ []]

theorem fresh_twoAgents : Run.Along step Fresh new twoAgents := by
  have hfirst : (1 : VmId) ∉ new.vms := by decide
  have hsecond : (2 : VmId) ∉ (Run.after step new (twoAgents.take 2)).vms := by decide
  exact ⟨hfirst, trivial, hsecond, trivial⟩

theorem picked_of_live_twoAgents :
    2 ∈ (Run.after step new twoAgents).picks [.turn, .kill 1, .turn] :=
  picked_of_live fresh_twoAgents (by decide) (by decide) (by decide)

end HypervisorRuntime

end Hypervisor

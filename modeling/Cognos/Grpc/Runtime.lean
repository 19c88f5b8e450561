/-
# `Cognos.Grpc.Runtime` — what the heartbeat supervisor knows of the agents

`IpcRuntime` of `ipc/grpc`: agents register and leave, and a supervisor goes over those that have
an endpoint, sends each a heartbeat and stores its sequence number when no error came back.  A
client that is not connected sends nothing, and that is no error either.  It is connected when
its agent registers, or never.

Calls come between the steps of the supervisor: between two agents of a pass, and between a
heartbeat and the number that is stored for it.  What a run sent is kept beside the state.

    unreached_run   an agent that was not reached when it registered is never tried again, and
                    its number goes up as if it answered, from what a pass under way has of it
    agents_blind    whether agents are reached or not, the registry is the same when those
                    that are answer
-/
import Mathlib
import Cognos.Lib.Run
import Cognos.Orchestrator.TaskGraph

namespace Grpc

open Orchestrator (HashOrder)

/-! ## The registry -/

/-- A registered agent. -/
structure AgentEntry where
  agentId : String
  endpoint : String
  capabilities : List String
  lastSeq : UInt64

/-- The entry after `n` numbers were stored in it, the first of them `next` and each of the
others one more. -/
def AgentEntry.stored (e : AgentEntry) (next : UInt64) : Nat → AgentEntry
  | 0 => e
  | n + 1 => { e with lastSeq := next + UInt64.ofNat n }

theorem AgentEntry.stored_succ (e : AgentEntry) (next : UInt64) (n : Nat) :
    ({ e with lastSeq := next } : AgentEntry).stored (next + 1) n = e.stored next (n + 1) := by
  cases n with
  | zero =>
      show { e with lastSeq := next } = { e with lastSeq := next + 0 }
      rw [UInt64.add_zero]
  | succ n =>
      show { e with lastSeq := next + 1 + UInt64.ofNat n } =
        { e with lastSeq := next + UInt64.ofNat (n + 1) }
      rw [UInt64.ofNat_add, UInt64.add_assoc, UInt64.add_comm 1]
      rfl

structure Heartbeat where
  agentId : String
  seq : UInt64
  status : String

inductive RuntimeError
  | agentExists (id : String)
  | agentNotFound (id : String)

/-- The runtime: its clients by whether they are connected, the agents the supervisor has still
to go over in its pass, and the number it has still to store. -/
structure IpcRuntime where
  agents : AList fun _ : String => AgentEntry
  clients : AList fun _ : String => Bool
  pass : List (String × UInt64)
  awaiting : Option (String × UInt64)
  sent : List Heartbeat

namespace IpcRuntime

def new : IpcRuntime := ⟨∅, ∅, [], none, []⟩

/-- Register a new agent; the endpoint it names is dialled at once. -/
def registerAgent (s : IpcRuntime) (entry : AgentEntry) (connects : Bool) :
    Except RuntimeError Unit × IpcRuntime :=
  if entry.agentId ∈ s.agents then (.error (.agentExists entry.agentId), s)
  else (.ok (), { s with
    agents := s.agents.insert entry.agentId entry
    clients := if entry.endpoint = "" then s.clients
      else s.clients.insert entry.agentId connects })

/-- Remove an agent and its client. -/
def unregisterAgent (s : IpcRuntime) (id : String) : Except RuntimeError Unit × IpcRuntime :=
  if id ∈ s.agents then
    (.ok (), { s with agents := s.agents.erase id, clients := s.clients.erase id })
  else (.error (.agentNotFound id), s)

/-! ## The supervisor -/

/-- The agents that have an endpoint, with their numbers. -/
def snapshot (s : IpcRuntime) (walk : HashOrder String) : List (String × UInt64) :=
  (walk.1 s.agents.keys).filterMap fun id =>
    ((s.agents.lookup id).filter fun e => e.endpoint ≠ "").map fun e => (id, e.lastSeq)

def heartbeat (id : String) (seq : UInt64) : Heartbeat := ⟨id, seq, "alive"⟩

/-- The next agent of the pass is sent a heartbeat, if its client is connected. -/
def beat (s : IpcRuntime) (answered : Bool) : IpcRuntime :=
  match s.awaiting, s.pass with
  | none, (id, seq) :: rest =>
      if s.clients.lookup id = some true then
        { s with
          pass := rest
          awaiting := if answered then some (id, seq + 1) else none
          sent := s.sent ++ [heartbeat id (seq + 1)] }
      else { s with pass := rest, awaiting := some (id, seq + 1) }
  | _, _ => s

/-- Its number is stored. -/
def record (s : IpcRuntime) : IpcRuntime :=
  match s.awaiting with
  | some (id, seq) => { s with
      agents := match s.agents.lookup id with
        | some e => s.agents.insert id { e with lastSeq := seq }
        | none => s.agents
      awaiting := none }
  | none => s

inductive Event
  | register (entry : AgentEntry) (connects : Bool)
  | unregister (id : String)
  /-- The interval is over: a pass starts, when none is under way. -/
  | tick (walk : HashOrder String)
  | beat (answered : Bool)
  | record

def step (s : IpcRuntime) : Event → IpcRuntime
  | .register entry connects => (s.registerAgent entry connects).2
  | .unregister id => (s.unregisterAgent id).2
  | .tick walk => if s.pass = [] ∧ s.awaiting = none then { s with pass := s.snapshot walk } else s
  | .beat answered => s.beat answered
  | .record => s.record

/-! ## A step -/

theorem registerAgent_of_mem {s : IpcRuntime} {entry : AgentEntry} (h : entry.agentId ∈ s.agents)
    (connects : Bool) : (s.registerAgent entry connects).2 = s := by
  rw [registerAgent, if_pos h]

theorem registerAgent_of_notMem {s : IpcRuntime} {entry : AgentEntry}
    (h : entry.agentId ∉ s.agents) (connects : Bool) :
    (s.registerAgent entry connects).2 = { s with
      agents := s.agents.insert entry.agentId entry
      clients := if entry.endpoint = "" then s.clients
        else s.clients.insert entry.agentId connects } := by
  rw [registerAgent, if_neg h]

theorem mem_snapshot {s : IpcRuntime} {walk : HashOrder String} {id : String} {seq : UInt64}
    (h : (id, seq) ∈ s.snapshot walk) : ∃ e, s.agents.lookup id = some e ∧ e.lastSeq = seq := by
  obtain ⟨key, -, hkey⟩ := List.mem_filterMap.mp h
  obtain ⟨e, he, hpair⟩ := Option.map_eq_some_iff.mp hkey
  obtain ⟨rfl, rfl⟩ := Prod.mk.inj hpair
  exact ⟨e, (Option.filter_eq_some_iff.mp he).1, rfl⟩

/-- No agent is gone over twice in a pass. -/
theorem nodup_snapshot (s : IpcRuntime) (walk : HashOrder String) :
    ((s.snapshot walk).map Prod.fst).Nodup := by
  have hkeys : (walk.1 s.agents.keys).Nodup := (walk.2 _).nodup_iff.mpr s.agents.keys_nodup
  rw [snapshot, List.map_filterMap]
  refine hkeys.filterMap ?_
  intro id id' key h h'
  have hself : ∀ {id key}, key ∈ (((s.agents.lookup id).filter fun e => e.endpoint ≠ "").map
      fun e => (id, e.lastSeq)).map Prod.fst → id = key := by
    intro id key h
    obtain ⟨pair, hpair, rfl⟩ := Option.map_eq_some_iff.mp h
    obtain ⟨e, -, rfl⟩ := Option.map_eq_some_iff.mp hpair
    rfl
  rw [hself h, hself h']

/-- The supervisor has each agent once: in what is left of its pass, or waiting for a number to be
stored. -/
structure Once (s : IpcRuntime) : Prop where
  nodup : (s.pass.map Prod.fst).Nodup
  apart : ∀ id seq, s.awaiting = some (id, seq) → id ∉ s.pass.map Prod.fst

theorem Once.step {s : IpcRuntime} (h : Once s) (event : Event) : Once (s.step event) := by
  cases event with
  | register entry connects =>
      rw [IpcRuntime.step, registerAgent]
      split_ifs <;> exact ⟨h.nodup, h.apart⟩
  | unregister id =>
      rw [IpcRuntime.step, unregisterAgent]
      split_ifs <;> exact ⟨h.nodup, h.apart⟩
  | tick walk =>
      rw [IpcRuntime.step]
      split_ifs with hidle
      · refine ⟨nodup_snapshot s walk, fun id seq hawaiting => ?_⟩
        rw [hidle.2] at hawaiting
        cases hawaiting
      · exact h
  | beat answered =>
      rw [IpcRuntime.step, beat]
      split
      · next key seq rest hawaiting hpass =>
          have hnodup := h.nodup
          rw [hpass, List.map_cons, List.nodup_cons] at hnodup
          have hapart : ∀ id seq', some (key, seq + 1) = some (id, seq') →
              id ∉ rest.map Prod.fst := by
            intro id seq' heq
            obtain ⟨rfl, -⟩ := Prod.mk.inj (Option.some.inj heq)
            exact hnodup.1
          split_ifs with hconnected hanswered
          · exact ⟨hnodup.2, hapart⟩
          · exact ⟨hnodup.2, fun id seq' hnone => by cases hnone⟩
          · exact ⟨hnodup.2, hapart⟩
      · exact h
  | record =>
      rw [IpcRuntime.step, record]
      split
      · exact ⟨h.nodup, fun id seq hnone => by cases hnone⟩
      · exact h

theorem once_run (events : List Event) : Once (Run.after step new events) := by
  refine Run.invariant_of_step step (I := Once) (fun s event h => h.step event) ?_ events
  exact ⟨List.nodup_nil, fun id seq hnone => by cases hnone⟩

/-! ## An agent that was not reached -/

/-- The number the supervisor has for the agent: the one to be stored, or the one after that of
the pass under way. -/
def heldFor (s : IpcRuntime) (id : String) : Option UInt64 :=
  match s.awaiting.filter (·.1 == id) with
  | some p => some p.2
  | none => (s.pass.find? (·.1 == id)).map (·.2 + 1)

/-- The next number that is stored for the agent is `next`, which is the one after its last where
the supervisor has none. -/
structure InStep (id : String) (e : AgentEntry) (next : UInt64) (s : IpcRuntime) : Prop where
  registered : s.agents.lookup id = some e
  unreached : s.clients.lookup id = some false
  once : Once s
  passing : ∀ seq, (id, seq) ∈ s.pass → seq + 1 = next
  awaiting : ∀ seq, s.awaiting = some (id, seq) → seq = next
  idle : id ∉ s.pass.map Prod.fst → id ∉ s.awaiting.map Prod.fst → next = e.lastSeq + 1

/-- This step stores the number of the agent. -/
def recorded (id : String) (s : IpcRuntime) : Event → Bool
  | .record => s.awaiting.map Prod.fst == some id
  | _ => false

section Unreached

variable {id : String} {e : AgentEntry} {next : UInt64} {s : IpcRuntime}

theorem InStep.register (h : InStep id e next s) (entry : AgentEntry) (connects : Bool) :
    InStep id e next (s.registerAgent entry connects).2 := by
  have honce : Once (s.registerAgent entry connects).2 := h.once.step (.register entry connects)
  by_cases hmem : entry.agentId ∈ s.agents
  · rw [registerAgent_of_mem hmem]
    exact h
  · rw [registerAgent_of_notMem hmem] at honce ⊢
    have hne : id ≠ entry.agentId := by
      rintro rfl
      exact hmem (AList.lookup_isSome.mp (Option.isSome_iff_exists.mpr ⟨e, h.registered⟩))
    refine ⟨?_, ?_, honce, h.passing, h.awaiting, h.idle⟩
    · rw [AList.lookup_insert_ne hne]
      exact h.registered
    · show AList.lookup id (if entry.endpoint = "" then _ else _) = _
      split_ifs
      · exact h.unreached
      · rw [AList.lookup_insert_ne hne]
        exact h.unreached

theorem InStep.unregister (h : InStep id e next s) {other : String} (hne : other ≠ id) :
    InStep id e next (s.unregisterAgent other).2 := by
  have honce : Once (s.unregisterAgent other).2 := h.once.step (.unregister other)
  rw [unregisterAgent] at honce ⊢
  split_ifs at honce ⊢
  · refine ⟨?_, ?_, honce, h.passing, h.awaiting, h.idle⟩
    · exact (AList.lookup_erase_ne hne.symm).trans h.registered
    · exact (AList.lookup_erase_ne hne.symm).trans h.unreached
  · exact h

theorem InStep.tick (h : InStep id e next s) (walk : HashOrder String) :
    InStep id e next (s.step (.tick walk)) := by
  have honce := h.once.step (.tick walk)
  rw [step] at honce ⊢
  split_ifs at honce ⊢ with hidle
  · have hnext : next = e.lastSeq + 1 := by
      refine h.idle ?_ ?_
      · rw [hidle.1]
        exact List.not_mem_nil
      · rw [hidle.2]
        exact fun hnone => by cases hnone
    refine ⟨h.registered, h.unreached, honce, ?_, ?_, fun _ _ => hnext⟩
    · intro seq hseq
      obtain ⟨e', he', rfl⟩ := mem_snapshot hseq
      rw [hnext, Option.some.inj (h.registered.symm.trans he')]
    · intro seq hseq
      rw [hidle.2] at hseq
      cases hseq
  · exact h

/-- No heartbeat goes to it. -/
theorem InStep.beat (h : InStep id e next s) (answered : Bool) :
    InStep id e next (s.beat answered) ∧
      (s.beat answered).sent.filter (·.agentId == id) = s.sent.filter (·.agentId == id) := by
  have honce : Once (s.beat answered) := h.once.step (.beat answered)
  generalize hbeat : s.beat answered = t at honce ⊢
  rw [IpcRuntime.beat] at hbeat
  split at hbeat
  · next key seq rest hawaiting hpass =>
      have hpassing : ∀ seq', (id, seq') ∈ rest → seq' + 1 = next := fun seq' hmem =>
        h.passing seq' (hpass ▸ List.mem_cons_of_mem _ hmem)
      have hidle : key ≠ id → id ∉ rest.map Prod.fst → next = e.lastSeq + 1 := by
        intro hne hrest
        refine h.idle ?_ ?_
        · rw [hpass, List.map_cons, List.mem_cons, not_or]
          exact ⟨hne.symm, hrest⟩
        · rw [hawaiting]
          exact fun hnone => by cases hnone
      split_ifs at hbeat with hconnected hanswered <;> subst hbeat
      · have hne : key ≠ id := by
          rintro rfl
          rw [h.unreached] at hconnected
          cases hconnected
        refine ⟨⟨h.registered, h.unreached, honce, hpassing, ?_, fun hrest _ => hidle hne hrest⟩,
          by simp [heartbeat, hne]⟩
        rintro seq' hseq'
        exact absurd (Prod.mk.inj (Option.some.inj hseq')).1 hne
      · have hne : key ≠ id := by
          rintro rfl
          rw [h.unreached] at hconnected
          cases hconnected
        refine ⟨⟨h.registered, h.unreached, honce, hpassing, ?_, fun hrest _ => hidle hne hrest⟩,
          by simp [heartbeat, hne]⟩
        rintro seq' hseq'
        cases hseq'
      · refine ⟨⟨h.registered, h.unreached, honce, hpassing, ?_, ?_⟩, rfl⟩
        · rintro seq' hseq'
          obtain ⟨rfl, rfl⟩ := Prod.mk.inj (Option.some.inj hseq')
          exact h.passing seq (hpass ▸ List.mem_cons_self)
        · intro hrest hnot
          refine hidle (fun heq => hnot ?_) hrest
          rw [heq]
          rfl
  · subst hbeat
    exact ⟨h, rfl⟩

/-- Its number is stored, and the next one is one more. -/
theorem InStep.record_self (h : InStep id e next s) {seq : UInt64}
    (hawaiting : s.awaiting = some (id, seq)) :
    InStep id { e with lastSeq := next } (next + 1) s.record := by
  have honce : Once s.record := h.once.step .record
  obtain rfl := h.awaiting seq hawaiting
  have hpass := h.once.apart id seq hawaiting
  rw [IpcRuntime.record, hawaiting] at honce ⊢
  simp only [h.registered] at honce ⊢
  refine ⟨AList.lookup_insert _, h.unreached, honce, ?_, ?_, fun _ _ => rfl⟩
  · intro seq' hseq'
    exact absurd (List.mem_map_of_mem hseq') hpass
  · intro seq' hseq'
    cases hseq'

/-- The number of another agent is stored, or none. -/
theorem InStep.record_other (h : InStep id e next s)
    (hother : ∀ seq, s.awaiting ≠ some (id, seq)) : InStep id e next s.record := by
  have honce : Once s.record := h.once.step .record
  cases hawaiting : s.awaiting with
  | none =>
      rw [IpcRuntime.record, hawaiting]
      exact h
  | some held =>
      obtain ⟨key, seq⟩ := held
      have hne : id ≠ key := fun heq => hother seq (heq ▸ hawaiting)
      rw [IpcRuntime.record, hawaiting] at honce ⊢
      have hnone : ∀ seq', none = some (id, seq') → seq' = next := fun seq' hnone => by
        cases hnone
      refine ⟨?_, h.unreached, honce, h.passing, hnone, ?_⟩
      · show AList.lookup id (match s.agents.lookup key with
          | some e => s.agents.insert key { e with lastSeq := seq }
          | none => s.agents) = some e
        cases s.agents.lookup key with
        | none => exact h.registered
        | some other =>
            rw [AList.lookup_insert_ne hne]
            exact h.registered
      · intro hpass _
        refine h.idle hpass ?_
        rw [hawaiting]
        exact fun hmem => hne (Option.some.inj hmem).symm

theorem sent_record (s : IpcRuntime) : s.record.sent = s.sent := by
  rw [record]
  split <;> rfl

/-- A step that stores the number of the agent, and one that does not. -/
theorem InStep.step (h : InStep id e next s) {event : Event} (hstays : event ≠ .unregister id) :
    (if recorded id s event then InStep id { e with lastSeq := next } (next + 1) (s.step event)
      else InStep id e next (s.step event)) ∧
    (s.step event).sent.filter (·.agentId == id) = s.sent.filter (·.agentId == id) := by
  cases event with
  | record =>
      rw [show s.step .record = s.record from rfl, sent_record]
      refine ⟨?_, rfl⟩
      by_cases hself : ∃ seq, s.awaiting = some (id, seq)
      · obtain ⟨seq, hseq⟩ := hself
        have hrecorded : recorded id s .record = true := by simp [recorded, hseq]
        rw [if_pos hrecorded]
        exact h.record_self hseq
      · have hrecorded : recorded id s .record ≠ true := by
          intro htrue
          obtain ⟨held, hheld, hid⟩ := Option.map_eq_some_iff.mp (beq_iff_eq.mp htrue)
          exact hself ⟨held.2, by rw [hheld, ← hid]⟩
        rw [if_neg hrecorded]
        exact h.record_other fun seq hseq => hself ⟨seq, hseq⟩
  | register entry connects =>
      refine ⟨h.register entry connects, ?_⟩
      rw [IpcRuntime.step, registerAgent]
      split_ifs <;> rfl
  | unregister other =>
      refine ⟨h.unregister fun heq => hstays (heq ▸ rfl), ?_⟩
      rw [IpcRuntime.step, unregisterAgent]
      split_ifs <;> rfl
  | tick walk =>
      refine ⟨h.tick walk, ?_⟩
      rw [IpcRuntime.step]
      split_ifs <;> rfl
  | beat answered =>
      obtain ⟨hstep, hsent⟩ := h.beat answered
      exact ⟨hstep, hsent⟩

/-- Along a run, the numbers that are stored for it follow one another, and no heartbeat goes to
it. -/
theorem InStep.after (h : InStep id e next s) {events : List Event}
    (hstays : ∀ event ∈ events, event ≠ .unregister id) :
    (Run.after IpcRuntime.step s events).agents.lookup id =
        some (e.stored next (Run.tally IpcRuntime.step (recorded id) s events)) ∧
      (Run.after IpcRuntime.step s events).sent.filter (·.agentId == id) =
        s.sent.filter (·.agentId == id) := by
  induction events generalizing s e next with
  | nil => exact ⟨h.registered, rfl⟩
  | cons event events ih =>
      obtain ⟨hstep, hsent⟩ := h.step (hstays event List.mem_cons_self)
      have hrest : ∀ event' ∈ events, event' ≠ .unregister id := fun event' hmem =>
        hstays event' (List.mem_cons_of_mem _ hmem)
      rw [Run.after_cons, Run.tally]
      cases hrecorded : recorded id s event with
      | true =>
          rw [hrecorded, if_pos rfl] at hstep
          obtain ⟨hafter, hquiet⟩ := ih hstep hrest
          rw [AgentEntry.stored_succ] at hafter
          rw [Bool.toNat_true]
          exact ⟨hafter, hquiet.trans hsent⟩
      | false =>
          rw [hrecorded, if_neg Bool.false_ne_true] at hstep
          obtain ⟨hafter, hquiet⟩ := ih hstep hrest
          rw [Bool.toNat_false, Nat.add_zero]
          exact ⟨hafter, hquiet.trans hsent⟩

end Unreached

/-- The number the supervisor has for an agent it is not busy with is none, and else the one it
will store. -/
theorem heldFor_cases {s : IpcRuntime} (h : Once s) (id : String) :
    (∀ seq, (id, seq) ∈ s.pass → s.heldFor id = some (seq + 1)) ∧
      (∀ seq, s.awaiting = some (id, seq) → s.heldFor id = some seq) ∧
      (id ∉ s.pass.map Prod.fst → id ∉ s.awaiting.map Prod.fst → s.heldFor id = none) := by
  refine ⟨fun seq hseq => ?_, fun seq hseq => ?_, fun hpass hawaiting => ?_⟩
  · have hnone : s.awaiting.filter (·.1 == id) = none := by
      refine Option.filter_eq_none_iff.mpr fun held hheld => ?_
      intro hid
      have hmem : held.1 ∉ s.pass.map Prod.fst := h.apart held.1 held.2 hheld
      rw [beq_iff_eq.mp hid] at hmem
      exact hmem (List.mem_map_of_mem hseq)
    rw [heldFor, hnone]
    obtain ⟨found, hfound⟩ := Option.isSome_iff_exists.mp
      (List.find?_isSome.mpr ⟨(id, seq), hseq, beq_self_eq_true id⟩ :
        (s.pass.find? (·.1 == id)).isSome = true)
    have hmem := List.mem_of_find?_eq_some hfound
    have hid : found.1 = id := by simpa using List.find?_some hfound
    have hsame : found = (id, seq) := List.inj_on_of_nodup_map h.nodup hmem hseq hid
    rw [hfound, hsame]
    rfl
  · rw [heldFor, hseq]
    simp [Option.filter]
  · have hnone : s.awaiting.filter (·.1 == id) = none := by
      refine Option.filter_eq_none_iff.mpr fun held hheld hid => hawaiting ?_
      rw [hheld, ← beq_iff_eq.mp hid]
      rfl
    have hpassed : s.pass.find? (·.1 == id) = none := by
      refine List.find?_eq_none.mpr fun p hp hid => hpass ?_
      rw [← beq_iff_eq.mp hid]
      exact List.mem_map_of_mem hp
    rw [heldFor, hnone, hpassed]
    rfl

/-- In any run, between any calls: once an agent with an endpoint registers and is not reached,
no heartbeat goes to it as long as it stays, and the numbers the supervisor stores for it follow
one another; the first is the one after its own, or the one that a pass under way has for it from
an earlier registration. -/
theorem unreached_run (past rest : List Event) (entry : AgentEntry)
    (hendpoint : entry.endpoint ≠ "")
    (hnew : entry.agentId ∉ (Run.after step new past).agents)
    (hstays : ∀ event ∈ rest, event ≠ .unregister entry.agentId) :
    let before := Run.after step new past
    let registered := Run.after step new (past ++ [.register entry false])
    let s := Run.after step new (past ++ .register entry false :: rest)
    s.sent.filter (·.agentId == entry.agentId) =
        before.sent.filter (·.agentId == entry.agentId) ∧
      s.agents.lookup entry.agentId =
        some (entry.stored ((before.heldFor entry.agentId).getD (entry.lastSeq + 1))
          (Run.tally step (recorded entry.agentId) registered rest)) := by
  intro before registered s
  have hstart : registered = (before.registerAgent entry false).2 := by
    show Run.after step new (past ++ [.register entry false]) = _
    rw [Run.after_append]
    rfl
  have hrun : s = Run.after step registered rest := by
    show Run.after step new (past ++ .register entry false :: rest) = _
    rw [Run.after_append, Run.after_cons, hstart]
    rfl
  have honce : Once before := once_run past
  obtain ⟨hpassing, hawaiting, hidle⟩ := heldFor_cases honce entry.agentId
  have honce' : Once registered := once_run (past ++ [.register entry false])
  rw [registerAgent_of_notMem hnew, if_neg hendpoint] at hstart
  have hinstep : InStep entry.agentId entry
      ((before.heldFor entry.agentId).getD (entry.lastSeq + 1)) registered := by
    rw [hstart] at honce' ⊢
    refine ⟨AList.lookup_insert _, AList.lookup_insert _, honce', ?_, ?_, ?_⟩
    · intro seq hseq
      rw [hpassing seq hseq]
      rfl
    · intro seq hseq
      rw [hawaiting seq hseq]
      rfl
    · intro hpass hnone
      rw [hidle hpass hnone]
      rfl
  obtain ⟨hafter, hsent⟩ := hinstep.after hstays
  rw [hrun]
  refine ⟨hsent.trans ?_, hafter⟩
  rw [hstart]

/-- An agent nobody listens for, at an endpoint. -/
def absent : AgentEntry := ⟨"agent.file", "http://127.0.0.1:7500", ["fs.read"], 0⟩

/-- It is gone over, and leaves before its number is stored. -/
def leaving : List Event :=
  [.register { absent with lastSeq := 5 } false, .tick (.listed String), .beat false,
    .unregister "agent.file"]

/-- The number of before is stored, and another pass goes over it. -/
def comingBack : List Event := [.record, .tick (.listed String), .beat false, .record]

theorem unreached_run_absent :
    (Run.after step new (leaving ++ .register absent false :: comingBack)).agents.lookup
      "agent.file" = some { absent with lastSeq := 7 } := by
  have h := (unreached_run leaving comingBack absent (by decide) (by decide)
    (by simp [comingBack])).2
  exact h

/-! ## What the registry says of the reached -/

/-- The step, where nobody can be reached. -/
def unreachable : Event → Event
  | .register entry _ => .register entry false
  | event => event

/-- The step, where everybody answers. -/
def answering : Event → Event
  | .beat _ => .beat true
  | event => event

/-- The same but for the clients, and nobody is reached in the second. -/
structure Alike (s t : IpcRuntime) : Prop where
  agents : s.agents = t.agents
  pass : s.pass = t.pass
  awaiting : s.awaiting = t.awaiting
  deaf : ∀ id, t.clients.lookup id ≠ some true
  silent : t.sent = []

theorem Alike.step {s t : IpcRuntime} (h : Alike s t) (event : Event) :
    Alike (s.step (answering event)) (t.step (unreachable event)) := by
  obtain ⟨hagents, hpass, hawaiting, hdeaf, hsilent⟩ := h
  cases event with
  | register entry connects =>
      show Alike (s.registerAgent entry connects).2 (t.registerAgent entry false).2
      by_cases hmem : entry.agentId ∈ s.agents
      · rw [registerAgent_of_mem hmem, registerAgent_of_mem (hagents ▸ hmem)]
        exact ⟨hagents, hpass, hawaiting, hdeaf, hsilent⟩
      · rw [registerAgent_of_notMem hmem, registerAgent_of_notMem (hagents ▸ hmem)]
        refine ⟨by rw [hagents], hpass, hawaiting, ?_, hsilent⟩
        intro id
        show AList.lookup id (if entry.endpoint = "" then _ else _) ≠ _
        split_ifs
        · exact hdeaf id
        · by_cases hid : id = entry.agentId
          · rw [hid, AList.lookup_insert]
            intro hfalse
            cases hfalse
          · rw [AList.lookup_insert_ne hid]
            exact hdeaf id
  | unregister id =>
      show Alike (s.unregisterAgent id).2 (t.unregisterAgent id).2
      rw [unregisterAgent, unregisterAgent, hagents]
      split_ifs
      · refine ⟨rfl, hpass, hawaiting, ?_, hsilent⟩
        intro other
        by_cases hother : other = id
        · rw [hother, AList.lookup_erase]
          intro hfalse
          cases hfalse
        · rw [AList.lookup_erase_ne hother]
          exact hdeaf other
      · exact ⟨hagents, hpass, hawaiting, hdeaf, hsilent⟩
  | tick walk =>
      show Alike (s.step (.tick walk)) (t.step (.tick walk))
      rw [IpcRuntime.step, IpcRuntime.step, snapshot, snapshot, hagents, hpass, hawaiting]
      split_ifs
      · exact ⟨rfl, rfl, rfl, hdeaf, hsilent⟩
      · exact ⟨hagents, hpass, hawaiting, hdeaf, hsilent⟩
  | beat answered =>
      show Alike (s.beat true) (t.beat answered)
      rw [beat, beat, hawaiting, hpass]
      split
      · next id seq rest ht hrest =>
          rw [if_neg (hdeaf id), if_pos rfl]
          split_ifs
          · exact ⟨hagents, rfl, rfl, hdeaf, hsilent⟩
          · exact ⟨hagents, rfl, rfl, hdeaf, hsilent⟩
      · exact ⟨hagents, hpass, hawaiting, hdeaf, hsilent⟩
  | record =>
      show Alike s.record t.record
      rw [record, record, hawaiting]
      split
      · refine ⟨?_, hpass, rfl, hdeaf, hsilent⟩
        rw [hagents]
      · exact ⟨hagents, hpass, hawaiting, hdeaf, hsilent⟩

/-- The registry cannot tell the agents that answer from those that cannot be reached: it is the
same where everybody that was reached answers and where nobody was, and there nothing was ever
sent. -/
theorem agents_blind (events : List Event) :
    (Run.after step new (events.map answering)).agents =
        (Run.after step new (events.map unreachable)).agents ∧
      (Run.after step new (events.map unreachable)).sent = [] := by
  have hfold : ∀ f : Event → Event, Run.after step new (events.map f) =
      Run.after (fun s event => step s (f event)) new events := fun f => List.foldl_map
  have hrun : Alike (Run.after (fun s event => step s (answering event)) new events)
      (Run.after (fun s event => step s (unreachable event)) new events) := by
    refine Run.related _ (fun s t event h => h.step event) ⟨rfl, rfl, rfl, ?_, rfl⟩ events
    intro id hid
    cases hid
  rw [hfold, hfold]
  exact ⟨hrun.agents, hrun.silent⟩

end IpcRuntime

end Grpc

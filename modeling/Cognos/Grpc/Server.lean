/-
# `Cognos.Grpc.Server` — the service behind every endpoint

`server.rs`: one service answers agents, the CLI and the orchestrator.  The HAL daemon and the
intent daemon put a handler of their own behind `HalGate` and `DispatchIntent`; the central bus has
neither, and says so.  RPCs run side by side: what one sends to the event bus when it comes and
when it is answered may have events of others in between, and one that waits for the intent
handler may be cancelled there.  The bus is a broadcast channel of 1024 events, and those who
stream it come and go.

    bus_run        the events sent to the bus account for the RPCs, in any interleaving, and a
                   stream has all of them since it began that it was not told it lost
    answered_run   what every RPC was answered

What a handler takes from outside, a fresh token or what a model says, is an argument of the step
that calls it; `json!` of a float is a parameter.
-/
import Mathlib
import Cognos.Grpc.Runtime
import Cognos.Ipc.Wire
import Cognos.Lib.Broadcast
import Cognos.Lib.Json.Natural
import Cognos.Lib.Run
import Cognos.Lib.Text

namespace Grpc

open Ipc (HalGateRequest HalGateResponse CapabilityViolation IntentActionGraph)
open Json (Value NumLit)

/-! ## Messages -/

structure Intent where
  intentId : String
  utterance : String
  action : String
  argsJson : List UInt8
  confidence : Float
  requires : List String
  sessionId : String
  deadlineNs : UInt64
  traceId : String

structure IntentResponse where
  intentId : String
  status : String
  resultJson : List UInt8
  message : String
  violation : Option CapabilityViolation
  completedAtNs : UInt64
  actionGraph : Option IntentActionGraph
  traceId : String

/-- A query without its vector, which nothing reads. -/
structure MemoryQuery where
  query : String
  tags : List String
  topK : UInt32
  minScore : Float
  namespaceName : String
  traceId : String

structure Hit where
  objectId : String
  score : Float
  payloadJson : List UInt8
  tags : List String

structure MemoryResult where
  hits : List Hit
  total : UInt32
  elapsedNs : UInt64
  traceId : String

structure ResourceHint where
  kind : String
  agentId : String
  priority : UInt32

/-- What is sent to the event bus. -/
structure BusEvent where
  kind : String
  source : String
  emittedAtNs : UInt64
  payloadJson : List UInt8
  severity : String
  traceId : String

/-- An event but for its time. -/
def BusEvent.told (e : BusEvent) : String × String × List UInt8 × String :=
  (e.kind, e.source, e.payloadJson, e.severity)

/-- The event says what a handler answered. -/
def BusEvent.isDecision (e : BusEvent) : Bool :=
  e.kind == "intent.parsed" || e.kind == "hal.gate_decided"

inductive Rpc
  | dispatchIntent (intent : Intent)
  | queryMemory (query : MemoryQuery)
  | halGate (req : HalGateRequest)
  | resourceHint (hint : ResourceHint)
  | heartbeat (hb : Heartbeat)

inductive Response
  | intent (r : IntentResponse)
  | memory (r : MemoryResult)
  | hal (r : HalGateResponse)
  | heartbeat (r : Heartbeat)

/-! ## The service -/

/-- The service with its handlers; `World` is what they take from outside. -/
structure CognosIpcService (World : Type) where
  serverCapability : String
  halGate : Option (World → HalGateRequest → HalGateResponse)
  intent : Option (World → Intent → IntentResponse)

/-- What the world has for a step: the clock, the time since the RPC came, and what a handler
takes. -/
structure Moment (World : Type) where
  now : UInt64
  elapsedNs : UInt64
  world : World

namespace CognosIpcService

variable {World : Type} (jsonF64 : Float → Value) (S : CognosIpcService World)

def emitEvent (now : UInt64) (kind source : String) (payload : Value) (severity : String) :
    BusEvent where
  kind := kind
  source := source
  emittedAtNs := now
  payloadJson := Text.bytes payload.print
  severity := severity
  traceId := ""

/-- What an RPC sends to the bus when it comes. -/
def arrival (now : UInt64) : Rpc → List BusEvent
  | .dispatchIntent intent =>
      [emitEvent now "intent.dispatched" "ipc.server"
        (.obj [("action", .str intent.action), ("confidence", jsonF64 intent.confidence),
          ("intent_id", .str intent.intentId)]) "info"]
  | .halGate req =>
      [emitEvent now "hal.gate_requested" "ipc.server"
        (.obj [("device", .str req.device), ("op", .str req.op)]) "info"]
  | .resourceHint hint =>
      [emitEvent now "sched.hint" hint.agentId
        (.obj [("kind", .str hint.kind), ("priority", .num (NumLit.ofNat hint.priority.toNat))])
        "debug"]
  | .queryMemory _ => []
  | .heartbeat _ => []

/-- The answer of a server that has no intent handler. -/
def misroutedIntent (now : UInt64) (intent : Intent) : IntentResponse where
  intentId := intent.intentId
  status := "failed"
  resultJson := []
  message := "DispatchIntent is not served on the central IPC bus; " ++
    "connect to cognos-intent (COGNOS_INTENT_ENDPOINT, default 127.0.0.1:7445)"
  violation := none
  completedAtNs := now
  actionGraph := none
  traceId := intent.traceId

/-- The answer of a server that has no gate. -/
def misroutedGate (req : HalGateRequest) : HalGateResponse where
  status := "failed"
  grantToken := ""
  riskScore := req.riskOverride
  data := []
  violation := some
    { required := req.capability
      held := ""
      reason := "misroute"
      message := "HalGate is not served on the central IPC bus; connect to " ++
        "cognos-hal (COGNOS_HAL_ENDPOINT, default 127.0.0.1:7444)"
      agentId := "ipc.server"
      traceId := req.traceId }
  traceId := req.traceId

/-- The memory's echo of a query. -/
def echo (elapsedNs : UInt64) (query : MemoryQuery) : MemoryResult where
  hits :=
    [{ objectId := "echo:" ++ query.query
       score := 1.0
       payloadJson := Text.bytes (Value.obj [("echo", .str query.query),
         ("namespace", .str query.namespaceName), ("responder", .str S.serverCapability)]).print
       tags := query.tags }]
  total := 1
  elapsedNs := elapsedNs
  traceId := query.traceId

def respond (m : Moment World) : Rpc → Response
  | .dispatchIntent intent =>
      match S.intent with
      | some handler => .intent (handler m.world intent)
      | none => .intent (misroutedIntent m.now intent)
  | .queryMemory query => .memory (S.echo m.elapsedNs query)
  | .halGate req =>
      match S.halGate with
      | some handler => .hal (handler m.world req)
      | none => .hal (misroutedGate req)
  | .resourceHint _ => .heartbeat ⟨"ipc.server", 0, "ok"⟩
  | .heartbeat hb => .heartbeat ⟨S.serverCapability, hb.seq, "ok"⟩

/-- What is sent to the bus with an answer: what a handler said. -/
def announcement (now : UInt64) : Rpc → Response → List BusEvent
  | .dispatchIntent _, .intent r =>
      if S.intent.isSome then
        [emitEvent now "intent.parsed" "ipc.server"
          (.obj [("intent_id", .str r.intentId), ("status", .str r.status)]) "info"]
      else []
  | .halGate req, .hal r =>
      if S.halGate.isSome then
        [emitEvent now "hal.gate_decided" "ipc.server"
          (.obj [("op", .str req.op), ("status", .str r.status)]) "info"]
      else []
  | _, _ => []

end CognosIpcService

/-! ## RPCs side by side -/

/-- `broadcast::channel(1024)` -/
def eventCapacity : Nat := 1024

/-- The event bus with those who stream it; the RPCs that came and are not answered, those that
were, and those whose callers left. -/
structure Serving where
  bus : Broadcast.Channel BusEvent
  pending : List Rpc
  answered : List (Rpc × Response)
  cancelled : List Rpc

namespace Serving

variable {World : Type} (jsonF64 : Float → Value) (S : CognosIpcService World)

def new : Serving := ⟨.new, [], [], []⟩

inductive Step (World : Type)
  | come (now : UInt64) (rpc : Rpc)
  | answer (index : Nat) (m : Moment World)
  | cancel (index : Nat)
  /-- `StreamEvents`: the stream with this number begins, has its next event, or ends. -/
  | stream (id : Nat)
  | receive (id : Nat)
  | hangUp (id : Nat)

def answer (s : Serving) (index : Nat) (m : Moment World) : Serving :=
  match s.pending[index]? with
  | none => s
  | some rpc =>
      let response := S.respond m rpc
      { s with
        bus := s.bus.sendAll (S.announcement m.now rpc response)
        pending := s.pending.eraseIdx index
        answered := s.answered ++ [(rpc, response)] }

/-- Only the intent handler is awaited. -/
def cancel (s : Serving) (index : Nat) : Serving :=
  match s.pending[index]? with
  | some (.dispatchIntent intent) =>
      if S.intent.isSome then
        { s with
          pending := s.pending.eraseIdx index
          cancelled := s.cancelled ++ [.dispatchIntent intent] }
      else s
  | _ => s

def step (s : Serving) : Step World → Serving
  | .come now rpc =>
      { s with
        bus := s.bus.sendAll (CognosIpcService.arrival jsonF64 now rpc)
        pending := s.pending ++ [rpc] }
  | .answer index m => s.answer S index m
  | .cancel index => s.cancel S index
  | .stream id => { s with bus := s.bus.subscribe id }
  | .receive id => { s with bus := s.bus.recv eventCapacity id }
  | .hangUp id => { s with bus := s.bus.leave id }

/-! ## What the bus says -/

/-- What an RPC has sent to the bus when it came. -/
def requested (rpc : Rpc) : List (String × String × List UInt8 × String) :=
  (CognosIpcService.arrival jsonF64 0 rpc).map BusEvent.told

/-- What its answer has sent there. -/
def announced (answer : Rpc × Response) : List (String × String × List UInt8 × String) :=
  (S.announcement 0 answer.1 answer.2).map BusEvent.told

/-- The RPC that comes with a step. -/
def Step.came : Step World → Option Rpc
  | .come _ rpc => some rpc
  | _ => none

theorem told_arrival (now : UInt64) (rpc : Rpc) :
    (CognosIpcService.arrival jsonF64 now rpc).map BusEvent.told = requested jsonF64 rpc := by
  cases rpc <;> rfl

theorem told_announcement (now : UInt64) (rpc : Rpc) (response : Response) :
    (S.announcement now rpc response).map BusEvent.told = announced S (rpc, response) := by
  cases rpc <;> cases response <;> simp only [announced, CognosIpcService.announcement] <;>
    split_ifs <;> rfl

theorem filter_arrival (now : UInt64) (rpc : Rpc) :
    (CognosIpcService.arrival jsonF64 now rpc).filter (·.isDecision) = [] ∧
      (CognosIpcService.arrival jsonF64 now rpc).filter (!·.isDecision) =
        CognosIpcService.arrival jsonF64 now rpc := by
  cases rpc <;> exact ⟨rfl, rfl⟩

theorem isDecision_announcement {now : UInt64} {rpc : Rpc} {response : Response} {e : BusEvent}
    (h : e ∈ S.announcement now rpc response) : e.isDecision = true := by
  cases rpc with
  | dispatchIntent intent =>
      cases response with
      | intent r =>
          obtain ⟨-, rfl⟩ : S.intent.isSome = true ∧ e = _ := by
            simpa [CognosIpcService.announcement] using h
          rfl
      | _ => cases h
  | halGate req =>
      cases response with
      | hal r =>
          obtain ⟨-, rfl⟩ : S.halGate.isSome = true ∧ e = _ := by
            simpa [CognosIpcService.announcement] using h
          rfl
      | _ => cases h
  | _ => cases h

theorem filter_announcement (now : UInt64) (rpc : Rpc) (response : Response) :
    (S.announcement now rpc response).filter (·.isDecision) = S.announcement now rpc response ∧
      (S.announcement now rpc response).filter (!·.isDecision) = [] := by
  constructor
  · exact List.filter_eq_self.mpr fun e he => isDecision_announcement S he
  · refine List.filter_eq_nil_iff.mpr fun e he => ?_
    rw [isDecision_announcement S he]
    exact Bool.false_ne_true

/-- The events that say what came, those that say what was answered, and the RPCs, after the
RPCs that came. -/
structure Accounts (came : List Rpc) (s : Serving) : Prop where
  requests : (s.bus.sent.filter (!·.isDecision)).map BusEvent.told =
    came.flatMap (requested jsonF64)
  decisions : (s.bus.sent.filter (·.isDecision)).map BusEvent.told =
    s.answered.flatMap (announced S)
  rpcs : came.Perm (s.answered.map Prod.fst ++ s.cancelled ++ s.pending)

variable {jsonF64 S}

theorem Accounts.come {came : List Rpc} {s : Serving} (h : Accounts jsonF64 S came s)
    (now : UInt64) (rpc : Rpc) :
    Accounts jsonF64 S (came ++ [rpc]) (s.step jsonF64 S (.come now rpc)) := by
  obtain ⟨hnone, hall⟩ := filter_arrival jsonF64 now rpc
  constructor
  · show ((s.bus.sendAll (CognosIpcService.arrival jsonF64 now rpc)).sent.filter _).map _ = _
    rw [Broadcast.Channel.sent_sendAll, List.filter_append, hall, List.map_append, h.requests,
      told_arrival, List.flatMap_append, List.flatMap_singleton]
  · show ((s.bus.sendAll (CognosIpcService.arrival jsonF64 now rpc)).sent.filter _).map _ = _
    rw [Broadcast.Channel.sent_sendAll, List.filter_append, hnone, List.append_nil, h.decisions]
    rfl
  · show (came ++ [rpc]).Perm (_ ++ (s.pending ++ [rpc]))
    rw [← List.append_assoc]
    exact h.rpcs.append_right [rpc]

theorem Accounts.answer {came : List Rpc} {s : Serving} (h : Accounts jsonF64 S came s)
    (index : Nat) (m : Moment World) : Accounts jsonF64 S came (s.answer S index m) := by
  rw [Serving.answer]
  cases hrpc : s.pending[index]? with
  | none => exact h
  | some rpc =>
      obtain ⟨hall, hnone⟩ := filter_announcement S m.now rpc (S.respond m rpc)
      constructor
      · simp only
        rw [Broadcast.Channel.sent_sendAll, List.filter_append, hnone, List.append_nil, h.requests]
      · simp only
        rw [Broadcast.Channel.sent_sendAll, List.filter_append, hall, List.map_append, h.decisions,
          told_announcement, List.flatMap_append, List.flatMap_singleton]
      · obtain ⟨hlt, rfl⟩ := List.getElem?_eq_some_iff.mp hrpc
        have hout := (List.getElem_cons_eraseIdx_perm hlt).symm
        refine h.rpcs.trans ((hout.append_left _).trans ?_)
        simp only [List.map_append, List.map_cons, List.map_nil]
        rw [List.append_assoc, List.append_assoc, List.append_assoc]
        exact List.perm_middle.append_left _

theorem Accounts.cancel {came : List Rpc} {s : Serving} (h : Accounts jsonF64 S came s)
    (index : Nat) : Accounts jsonF64 S came (s.cancel S index) := by
  rw [Serving.cancel]
  cases hrpc : s.pending[index]? with
  | none => exact h
  | some rpc =>
      cases rpc with
      | dispatchIntent intent =>
          simp only
          split_ifs with hhandler
          · refine ⟨h.requests, h.decisions, ?_⟩
            obtain ⟨hlt, hget⟩ := List.getElem?_eq_some_iff.mp hrpc
            have hout := (List.getElem_cons_eraseIdx_perm hlt).symm
            rw [hget] at hout
            refine h.rpcs.trans ((hout.append_left _).trans ?_)
            rw [← List.append_assoc, List.append_assoc]
            simp
          · exact h
      | _ => exact h

/-- Streaming the bus sends nothing to it. -/
theorem Accounts.of_sent {came : List Rpc} {s : Serving} (h : Accounts jsonF64 S came s)
    {bus : Broadcast.Channel BusEvent} (hsent : bus.sent = s.bus.sent) :
    Accounts jsonF64 S came { s with bus := bus } := by
  refine ⟨?_, ?_, h.rpcs⟩
  · show (bus.sent.filter _).map _ = _
    rw [hsent, h.requests]
  · show (bus.sent.filter _).map _ = _
    rw [hsent, h.decisions]

variable (jsonF64 S)

theorem accounts_run (steps : List (Step World)) :
    Accounts jsonF64 S (steps.filterMap Step.came) (Run.after (step jsonF64 S) new steps) := by
  induction steps using List.reverseRecOn with
  | nil => exact ⟨rfl, rfl, List.Perm.refl _⟩
  | append_singleton steps next ih =>
      rw [Run.after_append, Run.after_cons, Run.after_nil, List.filterMap_append]
      cases next with
      | come now rpc => exact ih.come now rpc
      | answer index m => exact (List.append_nil _).symm ▸ ih.answer index m
      | cancel index => exact (List.append_nil _).symm ▸ ih.cancel index
      | stream id =>
          exact (List.append_nil _).symm ▸ ih.of_sent (Broadcast.Channel.sent_subscribe _ id)
      | receive id =>
          exact (List.append_nil _).symm ▸ ih.of_sent (Broadcast.Channel.sent_recv _ _ id)
      | hangUp id => exact (List.append_nil _).symm ▸ ih.of_sent rfl

/-- What those who stream the bus got, of what was sent. -/
theorem streams_run (steps : List (Step World)) :
    (Run.after (step jsonF64 S) new steps).bus.Sound eventCapacity := by
  refine Run.invariant_of_step (I := fun s => s.bus.Sound eventCapacity) (step jsonF64 S) ?_
    Broadcast.Channel.sound_new steps
  intro s next h
  cases next with
  | come now rpc => exact Broadcast.Channel.sound_sendAll h _
  | answer index m =>
      show (s.answer S index m).bus.Sound eventCapacity
      rw [Serving.answer]
      split
      · exact h
      · exact Broadcast.Channel.sound_sendAll h _
  | cancel index =>
      show (s.cancel S index).bus.Sound eventCapacity
      rw [Serving.cancel]
      split
      · split_ifs <;> exact h
      · exact h
  | stream id => exact Broadcast.Channel.sound_subscribe h id
  | receive id => exact Broadcast.Channel.sound_recv h id
  | hangUp id => exact Broadcast.Channel.sound_leave h id

/-- Every answer is what the service says at some moment. -/
theorem answered_run (steps : List (Step World)) :
    ∀ p ∈ (Run.after (step jsonF64 S) new steps).answered, ∃ m, p.2 = S.respond m p.1 := by
  refine Run.invariant_of_step (I := fun s => ∀ p ∈ s.answered, ∃ m, p.2 = S.respond m p.1)
    (step jsonF64 S) ?_ (fun p hp => absurd hp List.not_mem_nil) steps
  intro s next hs
  cases next with
  | come now rpc => exact hs
  | answer index m =>
      show ∀ p ∈ (s.answer S index m).answered, _
      rw [Serving.answer]
      cases s.pending[index]? with
      | none => exact hs
      | some rpc =>
          intro p hp
          rcases List.mem_append.mp hp with hold | hnew
          · exact hs p hold
          · obtain rfl := List.mem_singleton.mp hnew
            exact ⟨m, rfl⟩
  | cancel index =>
      have hanswered : (s.cancel S index).answered = s.answered := by
        rw [Serving.cancel]
        split
        · split_ifs <;> rfl
        · rfl
      show ∀ p ∈ (s.cancel S index).answered, _
      rw [hanswered]
      exact hs
  | stream id => exact hs
  | receive id => exact hs
  | hangUp id => exact hs

/-- In any interleaving of RPCs: but for what handlers said, one event was sent to the bus for each
gate request, intent and hint, in the order they came; what handlers said was sent for each RPC
that was answered, in the order of the answers, and never without a handler; an RPC that came is
answered, cancelled or still waiting, once; and who streams the bus gets what is sent from then
on, in its order, less what it is told it lost, which is nothing before 1024 more are sent. -/
theorem bus_run (steps : List (Step World)) :
    let s := Run.after (step jsonF64 S) new steps
    let came := steps.filterMap Step.came
    (s.bus.sent.filter (!·.isDecision)).map BusEvent.told = came.flatMap (requested jsonF64) ∧
      (s.bus.sent.filter (·.isDecision)).map BusEvent.told = s.answered.flatMap (announced S) ∧
      (S.halGate = none → S.intent = none → s.bus.sent.filter (·.isDecision) = []) ∧
      came.Perm (s.answered.map Prod.fst ++ s.cancelled ++ s.pending) ∧
      ∀ id r, s.bus.receivers.lookup id = some r →
        r.got.Sublist (s.bus.sent.drop r.since) ∧
        (r.lost = 0 → r.got <+: s.bus.sent.drop r.since) ∧
        (s.bus.sent.length ≤ r.since + eventCapacity → r.lost = 0) := by
  have h := accounts_run jsonF64 S steps
  have hstreams := streams_run jsonF64 S steps
  refine ⟨h.requests, h.decisions, ?_, h.rpcs, fun id r hr => ?_⟩
  · intro hgate hintent
    have hsilent : ∀ answer, announced S answer = [] := by
      rintro ⟨rpc, response⟩
      cases rpc <;> cases response <;>
        simp [announced, CognosIpcService.announcement, hgate, hintent]
    refine List.map_eq_nil_iff.mp (h.decisions.trans ?_)
    exact List.flatMap_eq_nil_iff.mpr fun answer _ => hsilent answer
  · have hsound := hstreams id r hr
    exact ⟨hsound.got_sublist, hsound.got_prefix, hsound.lost_eq_zero⟩

end Serving

end Grpc

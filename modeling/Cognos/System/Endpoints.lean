/-
# `Cognos.System.Endpoints` — what an agent gets at which endpoint

The agents' client (`shared/ipc.py`) talks to the service its endpoint names (`server.rs`): by
default the central bus, which has no handlers, and in the file task the HAL daemon, whose gate
is `PolicyHalGate`.

    ungranted_bus   on the bus no call is ever granted anything
    install_ipc     asked over IPC, at whichever endpoint, the security agent stops no install
                    that is answered, and approves none
    made_iff        with the HAL daemon behind it, the file task makes a file exactly where the
                    path is not dangerous as it is spelled
-/
import Mathlib
import Cognos.Agents.Coordinator
import Cognos.Agents.FileTask
import Cognos.Grpc.Server
import Cognos.Hal.PolicyGate

namespace System

open Agents (IpcClient IpcConfig Method Request)
open Grpc (CognosIpcService HmacSha256)
open Py (Value Fields)

/-! ## Client and service -/

def seenViolation (v : Ipc.CapabilityViolation) : Agents.Violation :=
  ⟨v.required, v.held, v.reason, v.message⟩

def seenHit (h : Grpc.Hit) : Agents.MemoryHit := ⟨h.objectId, h.score, h.payloadJson, h.tags⟩

/-- A response of the gate, with what Python has for its bytes. -/
def seenGate (data : Value) (r : Ipc.HalGateResponse) : Agents.HalGateReply :=
  ⟨r.status, r.grantToken, r.riskScore, data, r.violation.map seenViolation, r.traceId⟩

/-- The stub's reply is the service's response. -/
def Seen : (m : Method) → m.Reply → Grpc.Response → Prop
  | .dispatchIntent, (reply : Agents.IntentReply), .intent r =>
      reply = ⟨r.intentId, r.status, r.resultJson, r.message, r.violation.map seenViolation,
        r.completedAtNs.toNat⟩
  | .queryMemory, (reply : Agents.MemoryReply), .memory r =>
      reply = ⟨r.hits.map seenHit, r.total.toNat, r.elapsedNs.toNat, r.traceId⟩
  | .halGate, (reply : Agents.HalGateReply), .hal r =>
      ∃ data, reply = seenGate data r
  | .heartbeat, (reply : Agents.HeartbeatReply), .heartbeat r =>
      reply = ⟨r.agentId, r.seq.toNat, r.status⟩
  | _, _, _ => False

/-- The message on the wire has what the payload of the request has. -/
def Carried (r : Request) : Grpc.Rpc → Prop
  | .dispatchIntent intent => r.method = .dispatchIntent ∧
      r.payload.lookup "intent_id" = some (.str intent.intentId) ∧
      r.payload.lookup "action" = some (.str intent.action)
  | .queryMemory query => r.method = .queryMemory ∧
      r.payload.lookup "query" = some (.str query.query)
  | .halGate req => r.method = .halGate ∧
      r.payload.lookup "op" = some (.str req.op) ∧
      r.payload.lookup "device" = some (.str req.device) ∧
      r.payload.lookup "capability" = some (.str req.capability) ∧
      r.payload.lookup "risk_override" = some (.float req.riskOverride) ∧
      r.payload.lookup "allow_approval" = some (.bool req.allowApproval)
  | .heartbeat hb => r.method = .heartbeat ∧
      r.payload.lookup "agent_id" = some (.str hb.agentId) ∧
      r.payload.lookup "seq" = some (.int hb.seq.toNat)
  | .resourceHint _ => False

/-- The replies to what the client sent are what the service responds. -/
def Behind {A : Type} (S : CognosIpcService A) (W : Agents.World) (client : IpcClient) : Prop :=
  ∀ i r, client.sent[i]? = some r → ∀ reply, W.outcome i r.method = .replied reply →
    ∃ m rpc, Carried r rpc ∧ Seen r.method reply (S.respond m rpc)

/-- The central bus. -/
def bus : CognosIpcService Unit := ⟨"ipc.server", none, none⟩

/-- The HAL daemon.  A grant token comes from outside. -/
def halDaemon : CognosIpcService String := ⟨"hal.gate", some Hal.evaluate, none⟩

section Client

variable {M : HmacSha256} {c : IpcConfig} {W : Agents.World} {A : Type} {S : CognosIpcService A}

theorem Behind.earlier {client later : IpcClient} (h : Behind S W later)
    (hpre : client.sent <+: later.sent) : Behind S W client := by
  intro i r hr reply hreply
  obtain ⟨rest, hrest⟩ := hpre
  refine h i r ?_ reply hreply
  rw [← hrest, List.getElem?_append_left (List.getElem?_eq_some_iff.mp hr).1]
  exact hr

/-- Calls only add to what was sent. -/
theorem kept_sent (sent : List Request) :
    IpcClient.Kept M c W (fun s => sent <+: s.sent) where
  invokeStub s m payload h := by
    obtain ⟨token, expiry, hcalled⟩ :=
      IpcClient.exists_invokeStub (M := M) (c := c) (W := W) s m payload
    rw [hcalled]
    exact h.trans (List.prefix_append _ _)
  modes _ _ _ _ _ h := h

theorem sent_prefix_after (s : IpcClient) (calls : List IpcClient.Call) :
    s.sent <+: (Run.after (IpcClient.step M c W) s calls).sent :=
  Run.invariant_of_step (I := fun s' : IpcClient => s.sent <+: s'.sent) _
    (fun _ call h => (kept_sent s.sent).step call h) List.prefix_rfl calls

theorem Behind.respond {client : IpcClient} (h : Behind S W client) {i : Nat} {r : Request}
    (hr : client.sent[i]? = some r) {m : Method} (hm : r.method = m) {reply : m.Reply}
    (hreply : W.outcome i m = .replied reply) :
    ∃ moment rpc, Carried r rpc ∧ Seen m reply (S.respond moment rpc) := by
  subst hm
  exact h i r hr reply hreply

/-- The response to the last request of a call that was answered. -/
theorem Behind.response {s s' : IpcClient} {m : Method} {payload fields : Fields}
    (h : Behind S W s') (hanswered : IpcClient.Answered c W s s' m payload fields) :
    ∃ reply moment rpc, Agents.replyFields W.loads m reply = .ok fields ∧
      Seen m reply (S.respond moment rpc) := by
  obtain ⟨front, r, reply, hsent, -, hm, -, -, houtcome, hreply⟩ := hanswered
  have hlast : s'.sent[front.length]? = some r := by
    rw [hsent]
    exact List.getElem?_concat_length
  obtain ⟨moment, rpc, -, hseen⟩ := h.respond hlast hm houtcome
  exact ⟨reply, moment, rpc, hreply, hseen⟩

/-! ## Dictionaries -/

/-- The status that a reply has, if it has one. -/
def status : (m : Method) → m.Reply → Option String
  | .dispatchIntent, (r : Agents.IntentReply) => some r.status
  | .queryMemory, _ => none
  | .halGate, (r : Agents.HalGateReply) => some r.status
  | .heartbeat, (r : Agents.HeartbeatReply) => some r.status

/-- No dictionary the client makes of a reply has a field `approved`. -/
theorem lookup_replyFields {loads : List UInt8 → Except Py.Exc Value} {m : Method}
    {reply : m.Reply} {fields : Fields} (h : Agents.replyFields loads m reply = .ok fields) :
    fields.lookup "approved" = none ∧
      fields.lookup "status" = (status m reply).map Value.str ∧ fields ≠ [] := by
  cases m with
  | dispatchIntent =>
      simp only [Agents.replyFields] at h
      cases hload : Agents.loadsOr loads (Agents.IntentReply.resultJson reply) with
      | error e =>
          rw [hload] at h
          cases h
      | ok result =>
          rw [hload] at h
          cases h
          exact ⟨rfl, rfl, List.cons_ne_nil _ _⟩
  | queryMemory =>
      simp only [Agents.replyFields] at h
      cases hhits : (Agents.MemoryReply.hits reply).mapM (Agents.hitFields loads) with
      | error e =>
          rw [hhits] at h
          cases h
      | ok hits =>
          rw [hhits] at h
          cases h
          exact ⟨rfl, rfl, List.cons_ne_nil _ _⟩
  | halGate =>
      cases h
      exact ⟨rfl, rfl, List.cons_ne_nil _ _⟩
  | heartbeat =>
      cases h
      exact ⟨rfl, rfl, List.cons_ne_nil _ _⟩

theorem lookup_fallbackResponse (c : IpcConfig) (m : Method) (payload : Fields)
    (traceId : String) :
    (Agents.fallbackResponse c m payload traceId).lookup "approved" = none ∧
      Agents.fallbackResponse c m payload traceId ≠ [] := by
  cases m <;> exact ⟨rfl, List.cons_ne_nil _ _⟩

/-! ## The bus -/

/-- What the bus says is no grant. -/
theorem status_of_bus {m : Method} {reply : m.Reply} {moment : Grpc.Moment Unit} {rpc : Grpc.Rpc}
    (h : Seen m reply (bus.respond moment rpc)) : status m reply ≠ some "granted" := by
  have hfailed : some "failed" ≠ some "granted" := by decide
  have hok : some "ok" ≠ some "granted" := by decide
  cases m with
  | dispatchIntent =>
      cases rpc with
      | dispatchIntent intent =>
          obtain rfl := h
          exact hfailed
      | _ => exact h.elim
  | queryMemory =>
      intro hgranted
      cases hgranted
  | halGate =>
      cases rpc with
      | halGate req =>
          obtain ⟨data, rfl⟩ := h
          exact hfailed
      | _ => exact h.elim
  | heartbeat =>
      cases rpc with
      | heartbeat hb =>
          obtain rfl := h
          exact hok
      | resourceHint hint =>
          obtain rfl := h
          exact hok
      | _ => exact h.elim

/-- What a call returned, with the bus behind the client, grants nothing. -/
def Ungranted (W : Agents.World) (returned : Except Agents.RpcError Fields × IpcClient) : Prop :=
  Behind bus W returned.2 → ∀ fields, returned.1 = .ok fields → ¬ Agents.Grants fields

theorem not_grants {fields : Fields} (happroved : fields.lookup "approved" = none)
    (hstatus : fields.lookup "status" ≠ some (.str "granted")) : ¬ Agents.Grants fields := by
  rintro (h | h)
  · rw [happroved] at h
    cases h
  · exact hstatus h

theorem ungranted_callRpc (s : IpcClient) (m : Method) (payload : Fields) (traceId : String) :
    Ungranted W (s.callRpc M c W m payload traceId) := by
  intro hbehind fields hfields
  obtain ⟨-, -, -, hanswer⟩ :=
    IpcClient.asked_callRpc (M := M) (c := c) (W := W) s m payload traceId
  rcases hanswer fields hfields with ⟨-, rfl⟩ | hanswered
  · exact not_grants (lookup_fallbackResponse c m payload traceId).1
      (IpcClient.status_fallbackResponse m payload traceId)
  · obtain ⟨reply, moment, rpc, hreply, hseen⟩ := hbehind.response hanswered
    obtain ⟨happroved, hstatus, -⟩ := lookup_replyFields hreply
    refine not_grants happroved ?_
    rw [hstatus]
    intro hgranted
    obtain ⟨text, htext, hvalue⟩ := Option.map_eq_some_iff.mp hgranted
    obtain rfl := Value.str.inj hvalue
    exact status_of_bus hseen htext

theorem ungranted_dispatchIntent (s : IpcClient) (i a u args conf req sess : Value) (t : String) :
    Ungranted W (s.dispatchIntent M c W i a u args conf req sess t) := by
  simp only [IpcClient.dispatchIntent]
  split
  · intro _ fields hfields
    cases hfields
  · exact ungranted_callRpc _ _ _ _

theorem ungranted_heartbeat (s : IpcClient) (text : String) (load : Float) (t : String) :
    Ungranted W (s.heartbeat M c W text load t) :=
  ungranted_callRpc _ _ _ _

theorem ungranted_run (s : IpcClient) (call : IpcClient.Call) :
    Ungranted W (s.run M c W call) := by
  have hnothing : ∀ s' : IpcClient, Ungranted W (.ok [], s') := by
    intro s' _ fields hfields
    cases hfields
    exact not_grants rfl (by simp)
  cases call with
  | connect => exact hnothing _
  | close => exact hnothing _
  | dispatchIntent i a u args conf req sess t => exact ungranted_dispatchIntent _ _ _ _ _ _ _ _ _
  | queryMemory q tags k score n t => exact ungranted_callRpc _ _ _ _
  | halGate op dev data cap allow t => exact ungranted_callRpc _ _ _ _
  | heartbeat text load t => exact ungranted_heartbeat _ _ _ _
  | send ty payload t =>
      simp only [IpcClient.run, IpcClient.send]
      split_ifs
      · exact ungranted_callRpc _ _ _ _
      · exact ungranted_dispatchIntent _ _ _ _ _ _ _ _ _
      · exact ungranted_callRpc _ _ _ _
      · exact ungranted_heartbeat _ _ _ _
      · exact ungranted_dispatchIntent _ _ _ _ _ _ _ _ _

/-- In any run of a client with the bus behind it, no call is granted anything. -/
theorem ungranted_bus (calls : List IpcClient.Call)
    (hbehind : Behind bus W (Run.after (IpcClient.step M c W) IpcClient.new calls)) :
    Run.Along (IpcClient.step M c W) (fun s call => ∀ fields,
      (s.run M c W call).1 = .ok fields → ¬ Agents.Grants fields) IpcClient.new calls := by
  refine (Run.along_iff_split _).mpr fun past call rest hcalls => ?_
  refine ungranted_run _ call (hbehind.earlier ?_)
  rw [hcalls, Run.after_append, Run.after_cons]
  exact sent_prefix_after _ rest

/-! The bus behind a client that asks for a file. -/

def notesRequest : Ipc.HalGateRequest :=
  ⟨"create_file", "/home/u/notes.txt", [], "file.write", -1.0, true, "t"⟩

/-- The central bus, as a client sees it that registers and then asks its gate. -/
def busWorld : Agents.World :=
  { IpcClient.openServer with
    outcome := fun _ m => match m with
      | .heartbeat => .replied (⟨"ipc.server", 1, "ok"⟩ : Agents.HeartbeatReply)
      | .halGate =>
          .replied (seenGate (.other false) (CognosIpcService.misroutedGate notesRequest))
      | _ => .timeout }

def registerAndAsk : List IpcClient.Call :=
  [.connect, .halGate (.str "create_file") (.str "/home/u/notes.txt") (.other false)
    (.str "file.write") (.bool true) "t"]

theorem behind_bus : Behind bus busWorld (Run.after
    (IpcClient.step Grpc.Token.Golden.hmac IpcClient.goldenConfig busWorld) IpcClient.new
    registerAndAsk) := by
  obtain ⟨first, second, hsent, hfirst, hsecond⟩ : ∃ first second, (Run.after
      (IpcClient.step Grpc.Token.Golden.hmac IpcClient.goldenConfig busWorld) IpcClient.new
        registerAndAsk).sent = [first, second] ∧
      (first.method = .heartbeat ∧ first.payload = IpcClient.heartbeatPayload
        IpcClient.goldenConfig 1 4102441200000000000 0.0 "register") ∧
      second.method = .halGate ∧ second.payload = [("op", .str "create_file"),
        ("device", .str "/home/u/notes.txt"), ("data", .other false),
        ("capability", .str "file.write"), ("risk_override", .float (-1.0)),
        ("allow_approval", .bool true), ("trace_id", .str "t")] :=
    ⟨_, _, rfl, ⟨rfl, rfl⟩, rfl, rfl⟩
  intro i r hr reply hreply
  rw [hsent] at hr
  match i with
  | 0 =>
      obtain rfl := Option.some.inj hr
      obtain ⟨method, payload, agent, token, now⟩ := first
      obtain ⟨rfl, rfl⟩ := hfirst
      cases hreply
      exact ⟨⟨0, 0, ()⟩, .heartbeat ⟨Grpc.Token.Golden.agent, 1, "register"⟩, ⟨rfl, rfl, rfl⟩, rfl⟩
  | 1 =>
      obtain rfl := Option.some.inj hr
      obtain ⟨method, payload, agent, token, now⟩ := second
      obtain ⟨rfl, rfl⟩ := hsecond
      obtain rfl := Agents.RpcOutcome.replied.inj hreply
      exact ⟨⟨0, 0, ()⟩, .halGate notesRequest, ⟨rfl, rfl, rfl, rfl, rfl, rfl⟩, _, rfl⟩
  | i + 2 => cases hr

theorem ungranted_bus_gate :
    Run.Along (IpcClient.step Grpc.Token.Golden.hmac IpcClient.goldenConfig busWorld)
      (fun s call => ∀ fields,
        (s.run Grpc.Token.Golden.hmac IpcClient.goldenConfig busWorld call).1 = .ok fields →
          ¬ Agents.Grants fields) IpcClient.new registerAndAsk :=
  ungranted_bus registerAndAsk behind_bus

/-! ## Installs over IPC -/

/-- What the coordinator gets of a call of the client. -/
def awaitedIpc : Except Agents.RpcError Fields → Except Agents.CallError Fields
  | .ok fields => .ok fields
  | .error e => .error (.exception e.exc)

/-- Nothing that comes back of a dispatched intent has a field `approved`. -/
theorem lookup_dispatchIntent {s : IpcClient} {i a u args conf req sess : Value} {t : String}
    {fields : Fields} (h : (s.dispatchIntent M c W i a u args conf req sess t).1 = .ok fields) :
    fields.lookup "approved" = none ∧ fields ≠ [] := by
  simp only [IpcClient.dispatchIntent] at h
  split at h
  · cases h
  · obtain ⟨-, -, -, hanswer⟩ := IpcClient.asked_callRpc (M := M) (c := c) (W := W) s
      .dispatchIntent _ t
    rcases hanswer fields h with ⟨-, rfl⟩ | ⟨front, r, reply, -, -, -, -, -, -, hreply⟩
    · exact lookup_fallbackResponse c _ _ _
    · obtain ⟨happroved, -, hne⟩ := lookup_replyFields hreply
      exact ⟨happroved, hne⟩

open Agents.Coordinator (installGoals trustPayload installPayload) in
/-- Where there is no security agent in the process and the client has an answer: the answer
approves nothing, and the install goes on to the file agent. -/
theorem install_ipc (s : Agents.Coordinator) (client : IpcClient) (first second : Agents.Meeting)
    {goal : String} (hgoal : goal ∈ installGoals) {schema : Fields} {traceId : String}
    (hremote : first.localAgent = none)
    (hipc : first.ipcResult = awaitedIpc
      (client.send M c W "INSTALL_TRUST" (trustPayload schema) traceId).1)
    {fields : Fields}
    (hanswer : (client.send M c W "INSTALL_TRUST" (trustPayload schema) traceId).1 = .ok fields) :
    ¬ Agents.Coordinator.Approved first ∧
      (s.routePrimary first second goal schema).2.sent = s.sent ++
        [⟨"security", "INSTALL_TRUST", trustPayload schema⟩,
          ⟨"file", "FILE_OPERATION", installPayload schema⟩] := by
  rw [hanswer] at hipc
  have hroute : Agents.Coordinator.localRoute "security" first = none := by
    rw [Agents.Coordinator.localRoute, hremote]
  obtain ⟨happroved, hne⟩ : fields.lookup "approved" = none ∧ fields ≠ [] := by
    simp only [IpcClient.send] at hanswer
    exact lookup_dispatchIntent hanswer
  constructor
  · rintro ⟨reply, hreply, htrue⟩
    rw [Agents.Coordinator.answer, hroute, hipc] at hreply
    obtain rfl := Option.some.inj hreply
    rw [happroved] at htrue
    cases htrue
  · have hlets : Agents.Coordinator.letsInstall (some fields) = true := by
      rw [Agents.Coordinator.letsInstall, Py.get, happroved]
      cases fields with
      | nil => exact absurd rfl hne
      | cons field fields => rfl
    have hothers : goal ∉ Agents.Coordinator.openGoals ∧ goal ∉ Agents.Coordinator.codingGoals ∧
        goal ∉ Agents.Coordinator.securityGoals := by
      rcases List.mem_pair.mp hgoal with rfl | rfl
      · decide
      · decide
    have hcalled : (s.callAgent first "security" "INSTALL_TRUST" (trustPayload schema) true).1 =
        some fields := by
      rw [Agents.Coordinator.callAgent, Bool.not_true, Bool.and_false, if_neg Bool.false_ne_true,
        hroute]
      simp only [Agents.Coordinator.callIpc, hipc, awaitedIpc]
    have hasked := s.sent_callAgent first "security" "INSTALL_TRUST" (trustPayload schema)
    rw [Agents.Coordinator.routePrimary, if_neg hothers.1, if_neg hothers.2.1, if_neg hothers.2.2,
      if_pos hgoal]
    cases hcall : s.callAgent first "security" "INSTALL_TRUST" (trustPayload schema) true with
    | mk securityResp s' =>
        rw [hcall] at hasked hcalled
        obtain rfl : securityResp = some fields := hcalled
        simp only
        rw [if_pos hlets, Agents.Coordinator.sent_callAgent, show s'.sent = _ from hasked,
          List.append_assoc]
        rfl

/-! A client that fell back, asked about ripgrep. -/

def fellBack : IpcClient := { IpcClient.new with fallbackMode := true }

/-- What the coordinator meets where there is only this client. -/
def throughFellBack : Agents.Meeting :=
  Agents.Coordinator.remote (awaitedIpc (fellBack.send Grpc.Token.Golden.hmac
    IpcClient.goldenConfig IpcClient.openServer "INSTALL_TRUST"
    (Agents.Coordinator.trustPayload Agents.Coordinator.ripgrep) "").1)

theorem install_ipc_ripgrep : ¬ Agents.Coordinator.Approved throughFellBack ∧
    (Agents.Coordinator.new.routePrimary throughFellBack (Agents.Coordinator.remote (.ok []))
      "install_package" Agents.Coordinator.ripgrep).2.sent =
        [⟨"security", "INSTALL_TRUST",
            Agents.Coordinator.trustPayload Agents.Coordinator.ripgrep⟩,
          ⟨"file", "FILE_OPERATION",
            Agents.Coordinator.installPayload Agents.Coordinator.ripgrep⟩] :=
  install_ipc (M := Grpc.Token.Golden.hmac) (c := IpcClient.goldenConfig)
    (W := IpcClient.openServer) Agents.Coordinator.new fellBack throughFellBack
    (Agents.Coordinator.remote (.ok [])) List.mem_cons_self rfl rfl rfl

/-! ## The file task and the HAL daemon -/

/-- A client whose server answers is connected after its first heartbeat. -/
theorem connect_live (hstubs : c.stubsAvailable = true) (hmax : 0 < c.maxFailures)
    {reply : Method.Reply .heartbeat} (hreply : W.outcome 0 .heartbeat = .replied reply) :
    (IpcClient.new.connect M c W).fallbackMode = false ∧
      (IpcClient.new.connect M c W).channel = true ∧
      (IpcClient.new.connect M c W).sent.length = 1 := by
  obtain ⟨n, hn⟩ : ∃ n, c.maxFailures.toNat = n + 1 := ⟨c.maxFailures.toNat - 1, by omega⟩
  let opened := IpcClient.new.closeChannel.openChannel
  obtain ⟨token, expiry, hcalled⟩ := IpcClient.exists_invokeStub (M := M) (c := c) (W := W)
    opened.nextSeq.2 .heartbeat (IpcClient.heartbeatPayload c (opened.seq + 1)
      (W.nowNs opened.sent.length) 0.0 "register")
  rw [show W.outcome opened.nextSeq.2.sent.length .heartbeat = .replied reply from hreply]
    at hcalled
  have hregister := IpcClient.register_eq (M := M) (c := c) (W := W) opened
  rw [hcalled] at hregister
  rw [IpcClient.connect, hstubs, Bool.not_true, if_neg Bool.false_ne_true, IpcClient.establish, hn,
    IpcClient.establishFrom, hregister]
  exact ⟨rfl, rfl, rfl⟩

/-- A connected client returns the reply to its request. -/
theorem callRpc_live {s : IpcClient} (hlive : s.fallbackMode = false)
    (hstubs : c.stubsAvailable = true) (hchannel : s.channel = true) {m : Method} {reply : m.Reply}
    (hreply : W.outcome s.sent.length m = .replied reply) {fields : Fields}
    (hfields : Agents.replyFields W.loads m reply = .ok fields) (payload : Fields)
    (traceId : String) :
    (s.callRpc M c W m payload traceId).1 = .ok fields ∧
      ∃ r, (s.callRpc M c W m payload traceId).2.sent = s.sent ++ [r] ∧ r.method = m ∧
        r.payload = payload := by
  obtain ⟨token, expiry, hcalled⟩ :=
    IpcClient.exists_invokeStub (M := M) (c := c) (W := W) s m payload
  rw [IpcClient.callRpc, hlive, hstubs, hchannel, hcalled, hreply]
  simp only [Bool.not_true, Bool.or_self, if_neg Bool.false_ne_true, hfields]
  exact ⟨trivial, _, rfl, rfl, rfl⟩

/-- With the HAL daemon behind it, the wrapper approves what is not dangerous by its path, as far
as the operation is not destructive by its name. -/
theorem approved_gate_iff {traceId agent action target : String} {preScore : Float} {isAi : Bool}
    (hstubs : c.stubsAvailable = true) (hmax : 0 < c.maxFailures)
    (hanswers : ∀ i m, ∃ reply, W.outcome i m = .replied reply)
    (hbehind : Behind halDaemon W
      (Agents.HalIpcWrapper.gate M c W traceId agent action target preScore isAi).2)
    (haction : Hal.ActionValidator.destructivePattern action = false) :
    ∃ fields, (Agents.HalIpcWrapper.gate M c W traceId agent action target preScore isAi).1 =
        .ok fields ∧
      ((Py.get fields "approved" (.bool true)).truthy = true ↔
        Hal.ActionValidator.dangerousPath target = false) := by
  obtain ⟨beat, hbeat⟩ := hanswers 0 .heartbeat
  obtain ⟨reply, hreply⟩ := hanswers 1 .halGate
  obtain ⟨hlive, hchannel, hlen⟩ :=
    connect_live (M := M) (c := Agents.wrapperConfig c) hstubs hmax hbeat
  obtain ⟨hok, r, hsent, hm, hpayload⟩ := callRpc_live (M := M) (c := Agents.wrapperConfig c) hlive
    hstubs hchannel (hlen.symm ▸ hreply) rfl
    [("op", .str action), ("device", .str target), ("data", .other false),
      ("capability", .str "file.write"), ("risk_override", .float (-1.0)),
      ("allow_approval", .bool true), ("trace_id", .str traceId)] traceId
  unfold Agents.HalIpcWrapper.gate at hbehind ⊢
  simp only [IpcClient.halGate] at hbehind ⊢
  generalize (IpcClient.new.connect M (Agents.wrapperConfig c) W).callRpc M (Agents.wrapperConfig c)
    W .halGate _ traceId = returned at *
  obtain ⟨answer, client⟩ := returned
  obtain rfl : answer = _ := hok
  simp only at hbehind hsent ⊢
  refine ⟨_, rfl, ?_⟩
  have hlast : client.sent[1]? = some r := by
    rw [hsent, ← hlen]
    exact List.getElem?_concat_length
  obtain ⟨moment, rpc, hcarried, hseen⟩ := hbehind.respond hlast hm hreply
  cases rpc with
  | halGate req =>
      obtain ⟨-, hop, hdevice, -⟩ := hcarried
      obtain ⟨data, rfl⟩ := hseen
      rw [hpayload] at hop hdevice
      obtain rfl : action = req.op := Value.str.inj (Option.some.inj hop)
      obtain rfl : target = req.device := Value.str.inj (Option.some.inj hdevice)
      have hgranted := Hal.granted_iff moment.world req
      rw [haction] at hgranted
      exact (beq_iff_eq.trans hgranted).trans (and_iff_right rfl)
  | _ => exact hseen.elim

/-- Where the HAL daemon answers and the file system takes the file: the task makes it exactly if
its path is not dangerous as it is spelled. -/
theorem made_iff {traceId : String} {F : Agents.FileSystem} {w : Agents.PathWorld} {flag : String}
    (hflag : Agents.halEnabled flag = true) (hstubs : c.stubsAvailable = true)
    (hmax : 0 < c.maxFailures) (hanswers : ∀ i m, ∃ reply, W.outcome i m = .replied reply)
    {tree folder made : F.Tree} {target vpath : String} (hpath : w.validated target = .ok vpath)
    (hbehind : Behind halDaemon W
      (Agents.HalIpcWrapper.gate M c W traceId "file" "create_file" vpath 0.3 false).2)
    (habsent : F.present tree vpath = false)
    (hfolder : F.mkdir tree (Py.pathParent vpath) = (.ok (), folder))
    (hmade : F.writeText folder vpath "" = (.ok (), made)) (hne : made ≠ tree) :
    (Agents.fileTask M c W traceId F w flag tree "create_file" target).2.2 = made ↔
      Hal.ActionValidator.dangerousPath vpath = false := by
  obtain ⟨fields, hgate, happroved⟩ := approved_gate_iff (M := M) (c := c) (W := W) hstubs hmax
    hanswers hbehind (by decide)
  simp only [Agents.fileTask, Agents.runTask, hflag, if_true]
  rw [if_neg (by decide)]
  simp only [Agents.createFile, hpath, habsent, Bool.false_and, if_neg Bool.false_ne_true,
    Agents.halGate, Agents.HalIpcWrapper.client, hgate]
  by_cases hdangerous : Hal.ActionValidator.dangerousPath vpath = false
  · rw [if_pos (happroved.mpr hdangerous)]
    simp only [hfolder, hmade]
    exact iff_of_true trivial hdangerous
  · rw [if_neg (mt happroved.mp hdangerous)]
    exact iff_of_false (fun h => hne h.symm) hdangerous

/-! The daemon is asked for a file at the root of the home. -/

def fileRequest : Ipc.HalGateRequest := ⟨"create_file", "", [], "file.write", -1.0, true, ""⟩

/-- The HAL daemon, as the file task sees it. -/
def daemonWorld : Agents.World :=
  { Agents.grantingServer with
    outcome := fun _ m => match m with
      | .heartbeat => .replied (⟨"hal.gate", 1, "ok"⟩ : Agents.HeartbeatReply)
      | .halGate => .replied (seenGate (.other false) (Hal.evaluate "token" fileRequest))
      | .dispatchIntent => .replied (⟨"", "failed", [], "", none, 0⟩ : Agents.IntentReply)
      | .queryMemory => .replied (⟨[], 0, 0, ""⟩ : Agents.MemoryReply) }

theorem behind_halDaemon : Behind halDaemon daemonWorld
    (Agents.HalIpcWrapper.gate Agents.fileHmac Agents.fileConfig daemonWorld "" "file" "create_file"
      "" 0.3 false).2 := by
  obtain ⟨first, second, hsent, hfirst, hsecond⟩ : ∃ first second,
      (Agents.HalIpcWrapper.gate Agents.fileHmac Agents.fileConfig daemonWorld "" "file"
        "create_file" "" 0.3 false).2.sent = [first, second] ∧
      (first.method = .heartbeat ∧ first.payload = IpcClient.heartbeatPayload
        (Agents.wrapperConfig Agents.fileConfig) 1 0 0.0 "register") ∧
      second.method = .halGate ∧ second.payload = [("op", .str "create_file"),
        ("device", .str ""), ("data", .other false), ("capability", .str "file.write"),
        ("risk_override", .float (-1.0)), ("allow_approval", .bool true), ("trace_id", .str "")] :=
    ⟨_, _, rfl, ⟨rfl, rfl⟩, rfl, rfl⟩
  intro i r hr reply hreply
  rw [hsent] at hr
  match i with
  | 0 =>
      obtain rfl := Option.some.inj hr
      obtain ⟨method, payload, agent, token, now⟩ := first
      obtain ⟨rfl, rfl⟩ := hfirst
      cases hreply
      exact ⟨⟨0, 0, ""⟩, .heartbeat ⟨"agent.file", 1, "register"⟩, ⟨rfl, rfl, rfl⟩, rfl⟩
  | 1 =>
      obtain rfl := Option.some.inj hr
      obtain ⟨method, payload, agent, token, now⟩ := second
      obtain ⟨rfl, rfl⟩ := hsecond
      obtain rfl := Agents.RpcOutcome.replied.inj hreply
      exact ⟨⟨0, 0, "token"⟩, .halGate fileRequest, ⟨rfl, rfl, rfl, rfl, rfl, rfl⟩, _, rfl⟩
  | i + 2 => cases hr

theorem made_iff_home : (Agents.fileTask Agents.fileHmac Agents.fileConfig daemonWorld ""
    (Agents.flagged false) Agents.homeOnly "1" false "create_file" "~/notes.txt").2.2 = true := by
  have hanswers : ∀ i m, ∃ reply, daemonWorld.outcome i m = .replied reply := by
    intro i m
    cases m <;> exact ⟨_, rfl⟩
  have hfolder : (Agents.flagged false).mkdir false (Py.pathParent "") = (.ok (), true) := rfl
  have hmade : (Agents.flagged false).writeText true "" "" = (.ok (), true) := rfl
  have hne : (true : (Agents.flagged false).Tree) ≠ false := by
    intro h
    cases h
  have hpath : Agents.homeOnly.validated "~/notes.txt" = .ok "" := rfl
  exact (made_iff (by decide) rfl (by decide) hanswers hpath behind_halDaemon rfl hfolder hmade
    hne).mpr (by decide)

end Client

end System

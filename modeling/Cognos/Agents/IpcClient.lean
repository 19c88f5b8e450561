/-
# `Cognos.Agents.IpcClient` — the agents' side of the IPC

`AgentIpcClient` of `shared/ipc.py`.  A call goes to the stub with a session token; when the
stub fails as a transport does, the channel is opened anew and the agent registers with a
heartbeat, up to `max_failures` times, and the call is made once more.  When no attempt gets
through, the client falls back: it answers by itself until it is connected again.

    sent_verifies            what is sent, in any run, carries a token the server takes
    granted_of_halGate       a grant comes from a reply of the server to this very request
    asked_callRpc            a call is at most `max_failures + 2` calls of the stub

What the server does is a `World`: the clock at each call of the stub, and what becomes of it.
-/
import Mathlib
import Cognos.Lib.PyValue
import Cognos.Lib.Run
import Cognos.Grpc.Token
import Cognos.Agents.FileAgent

namespace Agents

open Py (Value Fields Exc get)
open Grpc (HmacSha256)

/-! ## Messages -/

/-- The RPCs of the stub. -/
inductive Method
  | dispatchIntent
  | queryMemory
  | halGate
  | heartbeat
deriving DecidableEq

def Method.name : Method → String
  | .dispatchIntent => "DispatchIntent"
  | .queryMemory => "QueryMemory"
  | .halGate => "HalGate"
  | .heartbeat => "Heartbeat"

structure Violation where
  required : String
  held : String
  reason : String
  message : String

structure IntentReply where
  intentId : String
  status : String
  resultJson : List UInt8
  message : String
  violation : Option Violation
  completedAtNs : Int

structure MemoryHit where
  objectId : String
  score : Float
  payloadJson : List UInt8
  tags : List String

structure MemoryReply where
  hits : List MemoryHit
  total : Int
  elapsedNs : Int
  traceId : String

structure HalGateReply where
  status : String
  grantToken : String
  riskScore : Float
  data : Value
  violation : Option Violation
  traceId : String

structure HeartbeatReply where
  agentId : String
  seq : Int
  status : String

/-- What the stub's method returns. -/
def Method.Reply : Method → Type
  | .dispatchIntent => IntentReply
  | .queryMemory => MemoryReply
  | .halGate => HalGateReply
  | .heartbeat => HeartbeatReply

/-- What becomes of a call of the stub: `AioRpcError`, `TimeoutError`, another exception, or
a reply. -/
inductive RpcOutcome (m : Method)
  | rpcError (details : String)
  | timeout
  | raised (e : Exc)
  | replied (r : m.Reply)

/-- The world: the clock, in seconds and finer, at each call of the stub, and what becomes of the
call; and what Python has for JSON and lower case. -/
structure World where
  now : Nat → Int
  nowNs : Nat → Int
  outcome : Nat → (m : Method) → RpcOutcome m
  loads : List UInt8 → Except Exc Value
  dumps : Value → String
  lower : String → String

/-- What the constructor sets. -/
structure IpcConfig where
  agentId : String
  secret : List UInt8
  /-- `rpc_timeout`, as its text -/
  rpcTimeout : String
  maxFailures : Int
  stubsAvailable : Bool

/-! ## Dictionaries of replies -/

/-- `json.loads(text) if text else {}` -/
def loadsOr (loads : List UInt8 → Except Exc Value) (text : List UInt8) : Except Exc Value :=
  if text = [] then .ok (.dict []) else loads text

def hitFields (loads : List UInt8 → Except Exc Value) (h : MemoryHit) : Except Exc Value := do
  let payload ← loadsOr loads h.payloadJson
  return .dict [("object_id", .str h.objectId), ("score", .float h.score), ("payload", payload),
    ("tags", .list (h.tags.map .str))]

/-- The dictionary `_invoke_stub` makes of a reply. -/
def replyFields (loads : List UInt8 → Except Exc Value) : (m : Method) → m.Reply →
    Except Exc Fields
  | .dispatchIntent, (r : IntentReply) => do
      let result ← loadsOr loads r.resultJson
      return [("intent_id", .str r.intentId), ("status", .str r.status), ("result_json", result),
        ("message", .str r.message),
        ("violation", match r.violation with
          | none => .none
          | some v => .dict [("required", .str v.required), ("reason", .str v.reason),
              ("message", .str v.message)]),
        ("completed_at_ns", .int r.completedAtNs)]
  | .queryMemory, (r : MemoryReply) => do
      let hits ← r.hits.mapM (hitFields loads)
      return [("hits", .list hits), ("total", .int r.total), ("elapsed_ns", .int r.elapsedNs),
        ("trace_id", .str r.traceId)]
  | .halGate, (r : HalGateReply) =>
      .ok (halGateReply r.status r.grantToken r.riskScore r.data
        (match r.violation with
          | none => .none
          | some v => .dict [("required", .str v.required), ("held", .str v.held),
              ("reason", .str v.reason), ("message", .str v.message)])
        r.traceId)
  | .heartbeat, (r : HeartbeatReply) =>
      .ok [("agent_id", .str r.agentId), ("seq", .int r.seq), ("status", .str r.status)]

/-- `_fallback_response` -/
def fallbackResponse (c : IpcConfig) (m : Method) (payload : Fields) (traceId : String) : Fields :=
  match m with
  | .queryMemory =>
      [("hits", .list []), ("total", .int 0), ("elapsed_ns", .int 0),
        ("trace_id", get payload "trace_id" (.str traceId))]
  | .dispatchIntent =>
      [("intent_id", get payload "intent_id" (.str "")), ("status", .str "pending"),
        ("result_json", .dict []),
        ("message", .str (m.name ++ " acknowledged (fallback mode, no live IPC)"))]
  | .halGate => fallbackReply
  | .heartbeat =>
      [("agent_id", .str c.agentId), ("seq", get payload "seq" (.int 0)), ("status", .str "ok")]

/-! ## The client -/

/-- One request on the wire: the method and its payload, with its metadata. -/
structure Request where
  method : Method
  payload : Fields
  agent : String
  token : String
  /-- the client's clock when it was sent -/
  now : Int

/-- The client: its token, whether it has a channel, its mode; the requests it has sent, each
a call of the stub. -/
structure IpcClient where
  token : Option String
  tokenExpiry : Int
  channel : Bool
  fallbackMode : Bool
  registered : Bool
  seq : Nat
  sent : List Request

namespace IpcClient

def new : IpcClient := ⟨none, 0, false, false, false, 0, []⟩

def defaultTokenTtlS : Int := 3600

end IpcClient

/-- `create_token` of `auth.py` -/
def createToken (M : HmacSha256) (agentId : String) (expiry : Int) (secret : List UInt8) :
    String :=
  let expiryStr := toString expiry
  Grpc.Token.dotted (Text.bytes agentId) (Text.bytes expiryStr)
    (M.mac secret (Grpc.Token.message agentId expiryStr))

/-- An exception of a call: `IpcClientError`, or another one. -/
inductive RpcError
  | ipc (text : String)
  | raised (e : Exc)

namespace IpcClient

variable (M : HmacSha256) (c : IpcConfig) (W : World)

/-- `_session_token`, at the time `now`. -/
def sessionToken (s : IpcClient) (now : Int) : String × IpcClient :=
  let refresh (s : IpcClient) : String × IpcClient :=
    let expiry := now + defaultTokenTtlS
    let token := createToken M c.agentId expiry c.secret
    (token, { s with tokenExpiry := expiry, token := some token })
  match s.token with
  | none => refresh s
  | some token => if s.tokenExpiry - 60 ≤ now then refresh s else (token, s)

/-- `_invoke_stub`, on a client that has its stub. -/
def invokeStub (s : IpcClient) (m : Method) (payload : Fields) : RpcOutcome m × IpcClient :=
  let tries := s.sent.length
  let now := W.now tries
  let (token, s) := s.sessionToken M c now
  (W.outcome tries m, { s with sent := s.sent ++ [⟨m, payload, c.agentId, token, now⟩] })

def nextSeq (s : IpcClient) : Nat × IpcClient := (s.seq + 1, { s with seq := s.seq + 1 })

def closeChannel (s : IpcClient) : IpcClient := { s with channel := false, registered := false }

def openChannel (s : IpcClient) : IpcClient := { s with channel := true }

def heartbeatPayload (seq : Nat) (sentAtNs : Int) (loadAvg : Float) (status : String) : Fields :=
  [("agent_id", .str c.agentId), ("seq", .int seq), ("sent_at_ns", .int sentAtNs),
    ("load_avg", .float loadAvg), ("status", .str status)]

/-- `_register`: whether the heartbeat came back. -/
def register (s : IpcClient) : Bool × IpcClient :=
  let (seq, s) := s.nextSeq
  let payload := heartbeatPayload c seq (W.nowNs s.sent.length) 0.0 "register"
  match s.invokeStub M c W .heartbeat payload with
  | (.replied _, s) => (true, { s with registered := true })
  | (_, s) => (false, s)

/-- The attempts of `_establish` that are left. -/
def establishFrom (s : IpcClient) : Nat → IpcClient
  | 0 => { s.closeChannel with fallbackMode := true }
  | n + 1 =>
      match s.closeChannel.openChannel.register M c W with
      | (true, s) => { s with fallbackMode := false }
      | (false, s) => s.establishFrom n

/-- `_establish` -/
def establish (s : IpcClient) : IpcClient := s.establishFrom M c W c.maxFailures.toNat

/-- What an exception says. -/
def excText : Exc → String
  | .os _ text => text
  | .other _ text => text

/-- The reply as a dictionary, or what making it raises. -/
def replied (m : Method) (r : m.Reply) : Except RpcError Fields :=
  match replyFields W.loads m r with
  | .ok fields => .ok fields
  | .error e => .error (.raised e)

/-- The one retry of `_call_rpc`. -/
def retry (s : IpcClient) (m : Method) (payload : Fields) : Except RpcError Fields × IpcClient :=
  match s.invokeStub M c W m payload with
  | (.rpcError details, s) =>
      (.error (.ipc (m.name ++ " RPC error: " ++ details)), s)
  | (.timeout, s) =>
      (.error (.ipc (m.name ++ " RPC error: timeout>" ++ c.rpcTimeout ++ "s")), s)
  | (.raised e, s) => (.error (.raised e), s)
  | (.replied r, s) => (replied W m r, s)

/-- After a transport error: reconnect, and retry once. -/
def reconnect (s : IpcClient) (m : Method) (payload : Fields) (traceId : String) :
    Except RpcError Fields × IpcClient :=
  let s := s.establish M c W
  if s.fallbackMode then (.ok (fallbackResponse c m payload traceId), s)
  else s.retry M c W m payload

/-- `_call_rpc` -/
def callRpc (s : IpcClient) (m : Method) (payload : Fields) (traceId : String) :
    Except RpcError Fields × IpcClient :=
  if s.fallbackMode || !c.stubsAvailable then
    (.ok (fallbackResponse c m payload traceId), { s with fallbackMode := true })
  else if !s.channel then (.error (.ipc "not connected — call connect() first"), s)
  else
    match s.invokeStub M c W m payload with
    | (.rpcError _, s) => s.reconnect M c W m payload traceId
    | (.timeout, s) => s.reconnect M c W m payload traceId
    | (.raised e, s) => (.error (.ipc (m.name ++ " error: " ++ excText e)), s)
    | (.replied r, s) =>
        match replyFields W.loads m r with
        | .ok fields => (.ok fields, s)
        | .error e => (.error (.ipc (m.name ++ " error: " ++ excText e)), s)

/-! ## The public surface -/

def connect (s : IpcClient) : IpcClient :=
  if !c.stubsAvailable then { s with fallbackMode := true } else s.establish M c W

def close (s : IpcClient) : IpcClient := s.closeChannel

def dispatchIntent (s : IpcClient) (intentId action utterance args confidence requires sessionId :
    Value) (traceId : String) : Except RpcError Fields × IpcClient :=
  let args := args.orElse (.dict [])
  if !args.jsonable then (.error (.raised Py.typeError), s)
  else
    s.callRpc M c W .dispatchIntent
      [("intent_id", intentId), ("utterance", utterance), ("action", action),
        ("args_json", .str (W.dumps args)), ("confidence", confidence),
        ("requires", requires.orElse (.list [])), ("session_id", sessionId),
        ("deadline_ns", .int 0), ("trace_id", .str traceId)] traceId

def queryMemory (s : IpcClient) (query tags topK minScore namesp : Value) (traceId : String) :
    Except RpcError Fields × IpcClient :=
  s.callRpc M c W .queryMemory
    [("query", query), ("tags", tags.orElse (.list [])), ("top_k", topK),
      ("min_score", minScore), ("namespace", namesp), ("trace_id", .str traceId)] traceId

def halGate (s : IpcClient) (op device data capability allowApproval : Value) (traceId : String) :
    Except RpcError Fields × IpcClient :=
  s.callRpc M c W .halGate
    [("op", op), ("device", device), ("data", data), ("capability", capability),
      ("risk_override", .float (-1.0)), ("allow_approval", allowApproval),
      ("trace_id", .str traceId)] traceId

def heartbeat (s : IpcClient) (status : String) (loadAvg : Float) (traceId : String) :
    Except RpcError Fields × IpcClient :=
  let (seq, s) := s.nextSeq
  let payload := heartbeatPayload c seq (W.nowNs s.sent.length) loadAvg status
  s.callRpc M c W .heartbeat payload traceId

/-- `send`: the RPC a message type stands for. -/
def send (s : IpcClient) (msgType : String) (payload : Fields) (traceId : String) :
    Except RpcError Fields × IpcClient :=
  if msgType ∈ ["MEMORY_QUERY", "MEMORY_RESULT"] then
    s.queryMemory M c W (get payload "query" (.str "")) (get payload "tags" .none)
      (get payload "top_k" (.int 10)) (.float 0.0) (get payload "namespace" (.str "")) traceId
  else if msgType ∈ ["INTENT_DISPATCH", "FILE_OPERATION", "HAL_GATE_REQUEST"] then
    s.dispatchIntent M c W (get payload "intent_id" (.str ""))
      (get payload "action" (.str (W.lower msgType))) (get payload "utterance" (.str ""))
      (get payload "args" (.dict payload)) (get payload "confidence" (.float 0.0)) .none (.str "")
      traceId
  else if msgType = "HAL_GATE" then
    s.halGate M c W (get payload "op" (.str "")) (get payload "device" (.str "")) (.other false)
      (get payload "capability" (.str "")) (.bool true) traceId
  else if msgType = "RESOURCE_HINT" then
    s.heartbeat M c W "hint_received" 0.0 traceId
  else
    s.dispatchIntent M c W (get payload "intent_id" (.str ""))
      (.str ("agent." ++ W.lower msgType)) (get payload "message" (.str "")) (.dict payload)
      (.float 0.0) .none (.str "") traceId

/-- The calls a program makes. -/
inductive Call
  | connect
  | close
  | dispatchIntent (intentId action utterance args confidence requires sessionId : Value)
      (traceId : String)
  | queryMemory (query tags topK minScore namesp : Value) (traceId : String)
  | halGate (op device data capability allowApproval : Value) (traceId : String)
  | heartbeat (status : String) (loadAvg : Float) (traceId : String)
  | send (msgType : String) (payload : Fields) (traceId : String)

/-- What a call returns, and the client after it. -/
def run (s : IpcClient) : Call → Except RpcError Fields × IpcClient
  | .connect => (.ok [], s.connect M c W)
  | .close => (.ok [], s.close)
  | .dispatchIntent i a u args conf req sess t => s.dispatchIntent M c W i a u args conf req sess t
  | .queryMemory q tags k score n t => s.queryMemory M c W q tags k score n t
  | .halGate op dev data cap allow t => s.halGate M c W op dev data cap allow t
  | .heartbeat status load t => s.heartbeat M c W status load t
  | .send ty payload t => s.send M c W ty payload t

def step (s : IpcClient) (call : Call) : IpcClient := (s.run M c W call).2

/-! ## What every call keeps -/

/-- What calling the stub keeps, and does not look at the channel, the mode or the sequence
number. -/
structure Kept (I : IpcClient → Prop) : Prop where
  invokeStub : ∀ s m payload, I s → I (s.invokeStub M c W m payload).2
  modes : ∀ s channel fallbackMode registered seq, I s →
    I { s with
      channel := channel
      fallbackMode := fallbackMode
      registered := registered
      seq := seq }

variable {M c W}

theorem register_eq (s : IpcClient) : s.register M c W =
    match s.nextSeq.2.invokeStub M c W .heartbeat
        (heartbeatPayload c (s.seq + 1) (W.nowNs s.sent.length) 0.0 "register") with
    | (.replied _, s) => (true, { s with registered := true })
    | (_, s) => (false, s) := rfl

namespace Kept

variable {I : IpcClient → Prop} (h : Kept M c W I)

include h

theorem register {s : IpcClient} (hs : I s) : I (s.register M c W).2 := by
  have hseq : I s.nextSeq.2 := h.modes s s.channel s.fallbackMode s.registered (s.seq + 1) hs
  have hcalled := h.invokeStub s.nextSeq.2 .heartbeat
    (heartbeatPayload c (s.seq + 1) (W.nowNs s.sent.length) 0.0 "register") hseq
  rw [register_eq]
  generalize s.nextSeq.2.invokeStub M c W .heartbeat _ = called at hcalled
  obtain ⟨outcome, s'⟩ := called
  cases outcome with
  | replied r => exact h.modes s' s'.channel s'.fallbackMode true s'.seq hcalled
  | _ => exact hcalled

theorem establishFrom {s : IpcClient} (n : Nat) (hs : I s) : I (s.establishFrom M c W n) := by
  induction n generalizing s with
  | zero => exact h.modes s false true false s.seq hs
  | succ n ih =>
      have hopen : I s.closeChannel.openChannel := h.modes s true s.fallbackMode false s.seq hs
      have hregister := h.register hopen
      rw [IpcClient.establishFrom]
      generalize s.closeChannel.openChannel.register M c W = registered at hregister
      obtain ⟨ok, s'⟩ := registered
      cases ok with
      | true => exact h.modes s' s'.channel false s'.registered s'.seq hregister
      | false => exact ih hregister

theorem callRpc {s : IpcClient} (m : Method) (payload : Fields) (traceId : String) (hs : I s) :
    I (s.callRpc M c W m payload traceId).2 := by
  have hsent : ∀ s, I s → I (s.invokeStub M c W m payload).2 := fun s => h.invokeStub s m payload
  have hretry : ∀ s, I s → I (s.retry M c W m payload).2 := by
    intro s hs
    have hcalled := hsent s hs
    rw [IpcClient.retry]
    generalize s.invokeStub M c W m payload = called at hcalled
    obtain ⟨outcome, s'⟩ := called
    cases outcome <;> exact hcalled
  have hreconnect : ∀ s, I s → I (s.reconnect M c W m payload traceId).2 := by
    intro s hs
    have hest : I (s.establish M c W) := h.establishFrom _ hs
    simp only [IpcClient.reconnect]
    split
    · exact hest
    · exact hretry _ hest
  have hfirst := hsent s hs
  rw [IpcClient.callRpc]
  split
  · exact h.modes s s.channel true s.registered s.seq hs
  · split
    · exact hs
    · generalize s.invokeStub M c W m payload = called at hfirst
      obtain ⟨outcome, s'⟩ := called
      cases outcome with
      | rpcError details => exact hreconnect s' hfirst
      | timeout => exact hreconnect s' hfirst
      | raised e => exact hfirst
      | replied r =>
          dsimp only
          split <;> exact hfirst

theorem dispatchIntent {s : IpcClient} (i a u args conf req sess : Value) (t : String)
    (hs : I s) : I (s.dispatchIntent M c W i a u args conf req sess t).2 := by
  simp only [IpcClient.dispatchIntent]
  split
  · exact hs
  · exact h.callRpc _ _ _ hs

theorem heartbeat {s : IpcClient} (status : String) (load : Float) (t : String) (hs : I s) :
    I (s.heartbeat M c W status load t).2 :=
  h.callRpc _ _ _ (h.modes s s.channel s.fallbackMode s.registered (s.seq + 1) hs)

theorem step {s : IpcClient} (call : Call) (hs : I s) : I (s.step M c W call) := by
  cases call with
  | connect =>
      show I (s.connect M c W)
      rw [IpcClient.connect]
      split
      · exact h.modes s s.channel true s.registered s.seq hs
      · exact h.establishFrom _ hs
  | close => exact h.modes s false s.fallbackMode false s.seq hs
  | dispatchIntent i a u args conf req sess t =>
      exact h.dispatchIntent i a u args conf req sess t hs
  | queryMemory q tags k score n t => exact h.callRpc _ _ _ hs
  | halGate op dev data cap allow t => exact h.callRpc _ _ _ hs
  | heartbeat status load t => exact h.heartbeat status load t hs
  | send ty payload t =>
      show I (s.send M c W ty payload t).2
      rw [IpcClient.send]
      split_ifs
      · exact h.callRpc _ _ _ hs
      · exact h.dispatchIntent _ _ _ _ _ _ _ t hs
      · exact h.callRpc _ _ _ hs
      · exact h.heartbeat _ _ t hs
      · exact h.dispatchIntent _ _ _ _ _ _ _ t hs

end Kept

/-! ## Tokens -/

/-- The token is of the agent and lasts until the expiry; so does the one of each request, for
more than a minute. -/
structure Minted (M : HmacSha256) (c : IpcConfig) (s : IpcClient) : Prop where
  token : ∀ token, s.token = some token → ∃ expiry : UInt64, s.tokenExpiry = expiry.toNat ∧
    token = Grpc.Token.createToken M c.agentId expiry c.secret
  sent : ∀ r ∈ s.sent, ∃ expiry : UInt64, r.now + 60 < expiry.toNat ∧
    r.token = Grpc.Token.createToken M c.agentId expiry c.secret

/-- The clock reads seconds since 1970, and tokens expire before they have 64 bits. -/
def World.Clock (W : World) : Prop := ∀ i, 0 ≤ W.now i ∧ W.now i + defaultTokenTtlS < 2 ^ 64

/-- Python's token is Rust's. -/
theorem createToken_eq (agentId : String) (expiry : UInt64) (secret : List UInt8) :
    createToken M agentId expiry.toNat secret =
      Grpc.Token.createToken M agentId expiry secret := rfl

/-- The token in use is of the agent, and has more than a minute left. -/
theorem minted_sessionToken {s : IpcClient} (h : Minted M c s) {now : Int} (hpos : 0 ≤ now)
    (hlt : now + defaultTokenTtlS < 2 ^ 64) :
    Minted M c (s.sessionToken M c now).2 ∧ (s.sessionToken M c now).2.sent = s.sent ∧
      ∃ expiry : UInt64, now + 60 < expiry.toNat ∧
        (s.sessionToken M c now).1 = Grpc.Token.createToken M c.agentId expiry c.secret := by
  obtain ⟨expiry, hexpiry⟩ : ∃ expiry : UInt64, now + defaultTokenTtlS = expiry.toNat := by
    refine ⟨UInt64.ofNat (now + defaultTokenTtlS).toNat, ?_⟩
    have hnonneg : 0 ≤ now + defaultTokenTtlS := by
      rw [defaultTokenTtlS]
      omega
    rw [UInt64.toNat_ofNat', Nat.mod_eq_of_lt (by omega), Int.toNat_of_nonneg hnonneg]
  have hlive : now + 60 < expiry.toNat := by
    rw [← hexpiry, defaultTokenTtlS]
    omega
  have hfresh : Minted M c { s with
      tokenExpiry := now + defaultTokenTtlS
      token := some (createToken M c.agentId (now + defaultTokenTtlS) c.secret) } := by
    refine ⟨fun token htoken => ⟨expiry, hexpiry, ?_⟩, h.sent⟩
    rw [← Option.some.inj htoken, hexpiry, createToken_eq]
  have hnew : createToken M c.agentId (now + defaultTokenTtlS) c.secret =
      Grpc.Token.createToken M c.agentId expiry c.secret := by
    rw [hexpiry, createToken_eq]
  unfold sessionToken
  cases htoken : s.token with
  | none => exact ⟨hfresh, rfl, expiry, hlive, hnew⟩
  | some token =>
      by_cases hsoon : s.tokenExpiry - 60 ≤ now
      · simp only [if_pos hsoon]
        exact ⟨hfresh, trivial, expiry, hlive, hnew⟩
      · simp only [if_neg hsoon]
        obtain ⟨old, hold, rfl⟩ := h.token token htoken
        exact ⟨h, trivial, old, by omega, rfl⟩

theorem kept_minted (hclock : World.Clock W) : Kept M c W (Minted M c) where
  invokeStub s m payload h := by
    obtain ⟨hpos, hlt⟩ := hclock s.sent.length
    obtain ⟨hminted, hsent, expiry, hlive, htoken⟩ := minted_sessionToken h hpos hlt
    refine ⟨hminted.token, fun r hr => ?_⟩
    rcases List.mem_append.mp hr with hr | hr
    · exact hminted.sent r hr
    · rw [List.mem_singleton.mp hr]
      exact ⟨expiry, hlive, htoken⟩
  modes s channel fallbackMode registered seq h := ⟨h.token, h.sent⟩

/-- In any run, what is sent carries a token that the server takes for the agent's, as long as
the server's clock is not more than a minute ahead. -/
theorem sent_verifies (hclock : World.Clock W) (calls : List Call) {r : Request}
    (hr : r ∈ (Run.after (step M c W) IpcClient.new calls).sent) {now : UInt64}
    (hnow : (now.toNat : Int) ≤ r.now + 60) :
    ∃ ctx, Grpc.Token.verifyToken M r.token c.agentId c.secret now = .ok ctx ∧
      ctx.agentId = c.agentId := by
  have hnew : Minted M c IpcClient.new := by
    refine ⟨fun token htoken => ?_, fun r hr => ?_⟩
    · cases htoken
    · cases hr
  have hrun : Minted M c (Run.after (step M c W) IpcClient.new calls) :=
    Run.invariant_of_step _ (fun s call => (kept_minted hclock).step call) hnew calls
  obtain ⟨expiry, hlive, htoken⟩ := hrun.sent r hr
  have hbefore : now < expiry := by
    rw [UInt64.lt_iff_toNat_lt]
    omega
  rw [htoken, Grpc.Token.verify_createToken M hbefore]
  exact ⟨_, rfl, rfl⟩

/-- A server that is there and grants everything; the clock stands an hour before the golden
token's expiry. -/
def openServer : World where
  now _ := 4102441200
  nowNs _ := 4102441200000000000
  outcome
    | _, .heartbeat => .replied (⟨"server", 0, "ok"⟩ : HeartbeatReply)
    | _, .halGate => .replied (⟨"granted", "t", 0.0, .none, none, ""⟩ : HalGateReply)
    | _, _ => .timeout
  loads _ := .ok .none
  dumps _ := ""
  lower s := s

/-- The agent of the golden token. -/
def goldenConfig : IpcConfig where
  agentId := Grpc.Token.Golden.agent
  secret := Grpc.Token.Golden.secret
  rpcTimeout := "5.0"
  maxFailures := 3
  stubsAvailable := true

/-- What the agent sends to register. -/
def registration : Request where
  method := .heartbeat
  payload := heartbeatPayload goldenConfig 1 4102441200000000000 0.0 "register"
  agent := Grpc.Token.Golden.agent
  token := createToken Grpc.Token.Golden.hmac Grpc.Token.Golden.agent 4102444800
    Grpc.Token.Golden.secret
  now := 4102441200

theorem clock_openServer : World.Clock openServer := by
  intro i
  show (0 : Int) ≤ 4102441200 ∧ (4102441200 : Int) + 3600 < 2 ^ 64
  decide

theorem sent_verifies_registration : ∃ ctx,
    Grpc.Token.verifyToken Grpc.Token.Golden.hmac registration.token goldenConfig.agentId
      goldenConfig.secret 4102441260 = .ok ctx ∧ ctx.agentId = goldenConfig.agentId :=
  sent_verifies (M := Grpc.Token.Golden.hmac) (c := goldenConfig) (W := openServer)
    clock_openServer [.connect] (r := registration) (List.mem_singleton_self _) (by decide)

/-! ## What was asked of the server -/

/-- The token in use is kept with its expiry; nothing else changes. -/
theorem exists_sessionToken (s : IpcClient) (now : Int) : ∃ token expiry,
    s.sessionToken M c now = (token, { s with token := some token, tokenExpiry := expiry }) := by
  unfold sessionToken
  cases htoken : s.token with
  | none => exact ⟨_, _, rfl⟩
  | some token =>
      dsimp only
      split
      · exact ⟨_, _, rfl⟩
      · exact ⟨token, s.tokenExpiry, by rw [← htoken]⟩

/-- A call of the stub: what becomes of it, and what it leaves. -/
theorem exists_invokeStub (s : IpcClient) (m : Method) (payload : Fields) : ∃ token expiry,
    s.invokeStub M c W m payload = (W.outcome s.sent.length m,
      { s with
        token := some token
        tokenExpiry := expiry
        sent := s.sent ++ [⟨m, payload, c.agentId, token, W.now s.sent.length⟩] }) := by
  obtain ⟨token, expiry, hsession⟩ := exists_sessionToken (M := M) (c := c) s (W.now s.sent.length)
  refine ⟨token, expiry, ?_⟩
  rw [invokeStub, hsession]

/-- Registering is one call of the stub, and works when the heartbeat comes back. -/
theorem register_cases (s : IpcClient) : ∃ r ok s', s.register M c W = (ok, s') ∧
    s'.sent = s.sent ++ [r] ∧ r.method = .heartbeat ∧
    (ok = true ↔ ∃ reply, W.outcome s.sent.length .heartbeat = .replied reply) := by
  obtain ⟨token, expiry, hcalled⟩ := exists_invokeStub (M := M) (c := c) (W := W) s.nextSeq.2
    .heartbeat (heartbeatPayload c (s.seq + 1) (W.nowNs s.sent.length) 0.0 "register")
  rw [register_eq, hcalled]
  have hlen : s.nextSeq.2.sent.length = s.sent.length := rfl
  rw [hlen]
  cases houtcome : W.outcome s.sent.length .heartbeat with
  | replied reply => exact ⟨_, true, _, rfl, rfl, rfl, by simp⟩
  | _ => exact ⟨_, false, _, rfl, rfl, rfl, by simp⟩

/-- Establishing falls back when every attempt to register fails, and sends nothing but them. -/
theorem establishFrom_cases (s : IpcClient) (n : Nat) :
    ∃ rs, (s.establishFrom M c W n).sent = s.sent ++ rs ∧ rs.length ≤ n ∧
      (∀ r ∈ rs, r.method = .heartbeat) ∧
      ((s.establishFrom M c W n).fallbackMode = true ↔
        ∀ i < n, ∀ reply, W.outcome (s.sent.length + i) .heartbeat ≠ .replied reply) := by
  induction n generalizing s with
  | zero =>
      exact ⟨[], by simp [establishFrom, closeChannel], by simp, by simp, by simp [establishFrom]⟩
  | succ n ih =>
      obtain ⟨r, ok, s', hregister, hsent, hmethod, hok⟩ :=
        register_cases (M := M) (c := c) (W := W) s.closeChannel.openChannel
      have hlen : s.closeChannel.openChannel.sent = s.sent := rfl
      rw [hlen] at hsent hok
      rw [establishFrom, hregister]
      cases ok with
      | true =>
          refine ⟨[r], hsent, by simp, by simpa using hmethod, ?_⟩
          obtain ⟨reply, hreply⟩ := hok.mp rfl
          refine iff_of_false Bool.false_ne_true fun hall => ?_
          exact hall 0 (Nat.succ_pos n) reply hreply
      | false =>
          obtain ⟨rs, hrs, hcount, hmethods, hfallback⟩ := ih s'
          have hfirst : ∀ reply, W.outcome s.sent.length .heartbeat ≠ .replied reply :=
            fun reply hreply => Bool.false_ne_true (hok.mpr ⟨reply, hreply⟩)
          refine ⟨r :: rs, by simp [hrs, hsent], by simp [hcount],
            List.forall_mem_cons.mpr ⟨hmethod, hmethods⟩, ?_⟩
          rw [hfallback, hsent, List.length_append, List.length_singleton]
          constructor
          · intro hall i hi
            cases i with
            | zero => exact hfirst
            | succ i =>
                rw [show s.sent.length + (i + 1) = s.sent.length + 1 + i by omega]
                exact hall i (by omega)
          · intro hall i hi
            rw [show s.sent.length + 1 + i = s.sent.length + (i + 1) by omega]
            exact hall (i + 1) (by omega)

/-- Of what a call sent, the last is this request, and the fields are the reply to it. -/
def Answered (c : IpcConfig) (W : World) (s s' : IpcClient) (m : Method)
    (payload fields : Fields) : Prop :=
  ∃ front r reply, s'.sent = front ++ [r] ∧ s.sent <+: front ∧
    r.method = m ∧ r.payload = payload ∧ r.agent = c.agentId ∧
    W.outcome front.length m = .replied reply ∧ replyFields W.loads m reply = .ok fields

/-- The retry is one call of the stub; what it returns is the reply. -/
theorem retry_cases (s : IpcClient) (m : Method) (payload : Fields) :
    ∃ r, (s.retry M c W m payload).2.sent = s.sent ++ [r] ∧
      ∀ fields, (s.retry M c W m payload).1 = .ok fields →
        Answered c W s (s.retry M c W m payload).2 m payload fields := by
  obtain ⟨token, expiry, hcalled⟩ := exists_invokeStub (M := M) (c := c) (W := W) s m payload
  rw [retry, hcalled]
  cases houtcome : W.outcome s.sent.length m with
  | replied reply =>
      refine ⟨_, rfl, fun fields hfields => ?_⟩
      refine ⟨s.sent, _, reply, rfl, List.prefix_rfl, rfl, rfl, rfl, houtcome, ?_⟩
      simp only [replied] at hfields
      cases hreply : replyFields W.loads m reply with
      | error e =>
          rw [hreply] at hfields
          cases hfields
      | ok fields' =>
          rw [hreply] at hfields
          cases hfields
          rfl
  | _ =>
      refine ⟨_, rfl, fun fields hfields => ?_⟩
      cases hfields

/-- What a call sent, at most so many requests, and what it returned: the client's own answer,
after it fell back, or the server's reply to this request. -/
def Asked (c : IpcConfig) (W : World) (s : IpcClient) (m : Method) (payload : Fields)
    (traceId : String) (most : Nat) (returned : Except RpcError Fields × IpcClient) : Prop :=
  ∃ rs, returned.2.sent = s.sent ++ rs ∧ rs.length ≤ most ∧
    ∀ fields, returned.1 = .ok fields →
      (returned.2.fallbackMode = true ∧ fields = fallbackResponse c m payload traceId) ∨
        Answered c W s returned.2 m payload fields

/-- What was sent before belongs to the call. -/
theorem Asked.after {s s' : IpcClient} {m : Method} {payload : Fields} {traceId : String}
    {most : Nat} {returned : Except RpcError Fields × IpcClient} {before : List Request}
    (hsent : s'.sent = s.sent ++ before) (h : Asked c W s' m payload traceId most returned) :
    Asked c W s m payload traceId (before.length + most) returned := by
  obtain ⟨rs, hrs, hcount, hanswer⟩ := h
  refine ⟨before ++ rs, by rw [hrs, hsent, List.append_assoc], by simp [hcount],
    fun fields hfields => ?_⟩
  refine (hanswer fields hfields).imp_right ?_
  rintro ⟨front, r, reply, hlast, hpre, hrest⟩
  refine ⟨front, r, reply, hlast, List.IsPrefix.trans ?_ hpre, hrest⟩
  rw [hsent]
  exact List.prefix_append s.sent before

theorem asked_error {s s' : IpcClient} {m : Method} {payload : Fields} {traceId : String}
    {rs : List Request} {most : Nat} {e : RpcError} (hsent : s'.sent = s.sent ++ rs)
    (hcount : rs.length ≤ most) : Asked c W s m payload traceId most (.error e, s') := by
  refine ⟨rs, hsent, hcount, fun fields hfields => ?_⟩
  cases hfields

theorem asked_fallback {s s' : IpcClient} {m : Method} {payload : Fields} {traceId : String}
    {rs : List Request} {most : Nat} (hsent : s'.sent = s.sent ++ rs) (hcount : rs.length ≤ most)
    (hmode : s'.fallbackMode = true) : Asked c W s m payload traceId most
      (.ok (fallbackResponse c m payload traceId), s') := by
  refine ⟨rs, hsent, hcount, fun fields hfields => Or.inl ⟨hmode, ?_⟩⟩
  exact (Except.ok.inj hfields).symm

/-- The retry is one call of the stub. -/
theorem asked_retry (s : IpcClient) (m : Method) (payload : Fields) (traceId : String) :
    Asked c W s m payload traceId 1 (s.retry M c W m payload) := by
  obtain ⟨r, hsent, hanswer⟩ := retry_cases (M := M) (c := c) (W := W) s m payload
  exact ⟨[r], hsent, by simp, fun fields hfields => Or.inr (hanswer fields hfields)⟩

theorem asked_reconnect (s : IpcClient) (m : Method) (payload : Fields) (traceId : String) :
    Asked c W s m payload traceId (c.maxFailures.toNat + 1)
      (s.reconnect M c W m payload traceId) := by
  obtain ⟨rs, hrs, hcount, -, -⟩ :=
    establishFrom_cases (M := M) (c := c) (W := W) s c.maxFailures.toNat
  rw [reconnect, establish]
  by_cases hmode : (s.establishFrom M c W c.maxFailures.toNat).fallbackMode = true
  · simp only [if_pos hmode]
    exact asked_fallback hrs (by omega) hmode
  · simp only [if_neg hmode]
    obtain ⟨rs', hrs', hcount', hanswer⟩ := (asked_retry (M := M) (c := c) (W := W)
      (s.establishFrom M c W c.maxFailures.toNat) m payload traceId).after hrs
    exact ⟨rs', hrs', by omega, hanswer⟩

/-- A call is so many calls of the stub at most, and an answer is one of the two. -/
theorem asked_callRpc (s : IpcClient) (m : Method) (payload : Fields) (traceId : String) :
    Asked c W s m payload traceId (c.maxFailures.toNat + 2)
      (s.callRpc M c W m payload traceId) := by
  obtain ⟨token, expiry, hcalled⟩ := exists_invokeStub (M := M) (c := c) (W := W) s m payload
  have hagain : ∀ (s' : IpcClient) (r : Request), s'.sent = s.sent ++ [r] →
      Asked c W s m payload traceId (c.maxFailures.toNat + 2)
        (s'.reconnect M c W m payload traceId) := by
    intro s' r hsent
    obtain ⟨rs, hrs, hcount, hanswer⟩ :=
      (asked_reconnect (M := M) (c := c) (W := W) s' m payload traceId).after hsent
    rw [List.length_singleton] at hcount
    exact ⟨rs, hrs, by omega, hanswer⟩
  rw [callRpc]
  split
  · exact asked_fallback (List.append_nil _).symm (Nat.zero_le _) rfl
  · split
    · exact asked_error (List.append_nil _).symm (Nat.zero_le _)
    · rw [hcalled]
      cases houtcome : W.outcome s.sent.length m with
      | rpcError details => exact hagain _ _ rfl
      | timeout => exact hagain _ _ rfl
      | raised e => exact asked_error rfl (by simp)
      | replied reply =>
          dsimp only
          cases hreply : replyFields W.loads m reply with
          | error e => exact asked_error rfl (by simp)
          | ok fields' =>
              refine ⟨_, rfl, by simp, fun fields hfields => Or.inr ?_⟩
              cases hfields
              exact ⟨s.sent, _, reply, rfl, List.prefix_rfl, rfl, rfl, rfl, houtcome, hreply⟩

/-- A grant of HAL is the server's reply to this request. -/
theorem granted_of_halGate {s s' : IpcClient} {op device data capability allowApproval : Value}
    {traceId : String} {fields : Fields}
    (hcall : s.halGate M c W op device data capability allowApproval traceId = (.ok fields, s'))
    (hgranted : fields.lookup "status" = some (.str "granted")) :
    ∃ front r reply, s'.sent = front ++ [r] ∧ s.sent <+: front ∧ r.method = .halGate ∧
      r.payload.lookup "op" = some op ∧ r.payload.lookup "device" = some device ∧
      W.outcome front.length .halGate = .replied reply ∧ HalGateReply.status reply = "granted" := by
  obtain ⟨-, -, -, hanswer⟩ := asked_callRpc (M := M) (c := c) (W := W) s .halGate
    [("op", op), ("device", device), ("data", data), ("capability", capability),
      ("risk_override", .float (-1.0)), ("allow_approval", allowApproval),
      ("trace_id", .str traceId)] traceId
  rw [halGate] at hcall
  rw [hcall] at hanswer
  rcases hanswer fields rfl with ⟨-, rfl⟩ | ⟨front, r, reply, hsent, hpre, hm, hp, -, hout, hreply⟩
  · have hpending : some (Value.str "pending") = some (.str "granted") := hgranted
    exact absurd (Value.str.inj (Option.some.inj hpending)) (by decide)
  · refine ⟨front, r, reply, hsent, hpre, hm, by rw [hp]; rfl, by rw [hp]; rfl, hout, ?_⟩
    obtain rfl := Except.ok.inj hreply
    exact Value.str.inj (Option.some.inj hgranted)

/-- The last request that was sent is an `m`, and has got this reply. -/
def Replied (W : World) (s : IpcClient) (m : Method) (reply : m.Reply) : Prop :=
  ∃ front r, s.sent = front ++ [r] ∧ r.method = m ∧ W.outcome front.length m = .replied reply

theorem not_replied_of_sent {s s' : IpcClient} {m : Method} {reply : m.Reply} {r : Request}
    (hsent : s'.sent = s.sent ++ [r]) (hout : W.outcome s.sent.length m ≠ .replied reply) :
    ¬ Replied W s' m reply := by
  rintro ⟨front, r', hsent', -, hreply⟩
  obtain ⟨rfl, -⟩ := List.append_inj' (hsent'.symm.trans hsent) rfl
  exact hout hreply

/-- Registering is no reply to anything else. -/
theorem replied_of_append {s s' : IpcClient} {rs : List Request} (hsent : s'.sent = s.sent ++ rs)
    (hrs : ∀ r ∈ rs, r.method = .heartbeat) {m : Method} (hm : m ≠ .heartbeat)
    {reply : m.Reply} (h : Replied W s' m reply) : Replied W s m reply := by
  obtain ⟨front, r, hlast, hmethod, hout⟩ := h
  rcases List.eq_nil_or_concat rs with rfl | ⟨rs', r', rfl⟩
  · exact ⟨front, r, by rw [← hlast, hsent, List.append_nil], hmethod, hout⟩
  · rw [hsent, List.concat_eq_append, ← List.append_assoc] at hlast
    obtain ⟨-, hr⟩ := List.append_inj' hlast rfl
    obtain rfl := List.singleton_inj.mp hr
    exact absurd (hmethod.symm.trans (hrs r' (by simp))) hm

theorem retry_of_replied {s : IpcClient} {m : Method} {payload : Fields} {reply : m.Reply}
    {fields : Fields} (hfields : replyFields W.loads m reply = .ok fields)
    (h : Replied W (s.retry M c W m payload).2 m reply) :
    (s.retry M c W m payload).1 = .ok fields := by
  obtain ⟨token, expiry, hcalled⟩ := exists_invokeStub (M := M) (c := c) (W := W) s m payload
  rw [retry, hcalled] at h ⊢
  by_cases hout : W.outcome s.sent.length m = .replied reply
  · simp only [hout, replied, hfields]
  · refine absurd h ?_
    cases houtcome : W.outcome s.sent.length m <;> exact not_replied_of_sent rfl hout

/-- After a request that failed, only the retry can bring a reply. -/
theorem reconnect_of_replied {s s' : IpcClient} {m : Method} (hm : m ≠ .heartbeat)
    {payload : Fields} {traceId : String} {reply : m.Reply} {fields : Fields}
    (hfields : replyFields W.loads m reply = .ok fields) {r : Request}
    (hsent : s'.sent = s.sent ++ [r]) (hout : W.outcome s.sent.length m ≠ .replied reply)
    (h : Replied W (s'.reconnect M c W m payload traceId).2 m reply) :
    (s'.reconnect M c W m payload traceId).1 = .ok fields := by
  obtain ⟨rs, hrs, -, hmethods, -⟩ :=
    establishFrom_cases (M := M) (c := c) (W := W) s' c.maxFailures.toNat
  rw [reconnect, establish] at h ⊢
  by_cases hmode : (s'.establishFrom M c W c.maxFailures.toNat).fallbackMode = true
  · simp only [if_pos hmode] at h
    exact absurd (replied_of_append hrs hmethods hm h) (not_replied_of_sent hsent hout)
  · simp only [if_neg hmode] at h ⊢
    exact retry_of_replied hfields h

/-- A call that got a reply last returns it. -/
theorem callRpc_of_replied {s : IpcClient} {m : Method} (hm : m ≠ .heartbeat) {payload : Fields}
    {traceId : String} {reply : m.Reply} {fields : Fields}
    (hfields : replyFields W.loads m reply = .ok fields) (hbefore : ¬ Replied W s m reply)
    (h : Replied W (s.callRpc M c W m payload traceId).2 m reply) :
    (s.callRpc M c W m payload traceId).1 = .ok fields := by
  obtain ⟨token, expiry, hcalled⟩ := exists_invokeStub (M := M) (c := c) (W := W) s m payload
  rw [callRpc] at h ⊢
  split at h
  · exact absurd h hbefore
  · next hlive =>
      rw [if_neg hlive]
      split at h
      · exact absurd h hbefore
      · next hchannel =>
          rw [if_neg hchannel]
          rw [hcalled] at h ⊢
          by_cases hout : W.outcome s.sent.length m = .replied reply
          · simp only [hout, hfields]
          · cases houtcome : W.outcome s.sent.length m with
            | rpcError details =>
                simp only [houtcome] at h ⊢
                exact reconnect_of_replied hm hfields rfl hout h
            | timeout =>
                simp only [houtcome] at h ⊢
                exact reconnect_of_replied hm hfields rfl hout h
            | raised e =>
                simp only [houtcome] at h
                exact absurd h (not_replied_of_sent rfl hout)
            | replied reply' =>
                simp only [houtcome] at h
                refine absurd h ?_
                split <;> exact not_replied_of_sent rfl hout

theorem halGate_of_replied {s : IpcClient} (op device data capability allowApproval : Value)
    (traceId : String) {reply : HalGateReply} {fields : Fields}
    (hfields : replyFields W.loads .halGate reply = .ok fields)
    (hbefore : ¬ Replied W s .halGate reply)
    (h : Replied W (s.halGate M c W op device data capability allowApproval traceId).2 .halGate
      reply) :
    (s.halGate M c W op device data capability allowApproval traceId).1 = .ok fields :=
  callRpc_of_replied (by decide) hfields hbefore h

/-! ## Fallback -/

/-- What a client makes up grants nothing. -/
theorem status_fallbackResponse (m : Method) (payload : Fields) (traceId : String) :
    (fallbackResponse c m payload traceId).lookup "status" ≠ some (.str "granted") := by
  cases m with
  | queryMemory =>
      intro h
      have hnone : none = some (Value.str "granted") := h
      cases hnone
  | heartbeat =>
      intro h
      have hok : some (Value.str "ok") = some (.str "granted") := h
      exact absurd (Value.str.inj (Option.some.inj hok)) (by decide)
  | _ =>
      intro h
      have hpending : some (Value.str "pending") = some (.str "granted") := h
      exact absurd (Value.str.inj (Option.some.inj hpending)) (by decide)

theorem fallbackMode_retry (s : IpcClient) (m : Method) (payload : Fields) :
    (s.retry M c W m payload).2.fallbackMode = s.fallbackMode := by
  obtain ⟨token, expiry, hcalled⟩ := exists_invokeStub (M := M) (c := c) (W := W) s m payload
  rw [retry, hcalled]
  cases W.outcome s.sent.length m <;> rfl

theorem fallbackMode_reconnect (s : IpcClient) (m : Method) (payload : Fields)
    (traceId : String) : (s.reconnect M c W m payload traceId).2.fallbackMode = true ↔
      ∀ i < c.maxFailures.toNat, ∀ reply,
        W.outcome (s.sent.length + i) .heartbeat ≠ .replied reply := by
  obtain ⟨-, -, -, -, hfails⟩ :=
    establishFrom_cases (M := M) (c := c) (W := W) s c.maxFailures.toNat
  rw [← hfails, reconnect, establish]
  by_cases hmode : (s.establishFrom M c W c.maxFailures.toNat).fallbackMode = true
  · simp only [if_pos hmode]
  · simp only [if_neg hmode, fallbackMode_retry]

/-- A live client falls back in a call exactly when the stub fails as a transport does, and
then every attempt to register. -/
theorem fallback_callRpc_iff {s : IpcClient} (hlive : s.fallbackMode = false)
    (hstubs : c.stubsAvailable = true) (hchannel : s.channel = true) (m : Method)
    (payload : Fields) (traceId : String) :
    (s.callRpc M c W m payload traceId).2.fallbackMode = true ↔
      ((∃ details, W.outcome s.sent.length m = .rpcError details) ∨
        W.outcome s.sent.length m = .timeout) ∧
      ∀ i < c.maxFailures.toNat, ∀ reply,
        W.outcome (s.sent.length + 1 + i) .heartbeat ≠ .replied reply := by
  obtain ⟨token, expiry, hcalled⟩ := exists_invokeStub (M := M) (c := c) (W := W) s m payload
  have hreconnect : ∀ (s' : IpcClient) (r : Request), s'.sent = s.sent ++ [r] →
      ((s'.reconnect M c W m payload traceId).2.fallbackMode = true ↔
        ∀ i < c.maxFailures.toNat, ∀ reply,
          W.outcome (s.sent.length + 1 + i) .heartbeat ≠ .replied reply) := by
    intro s' r hsent
    rw [fallbackMode_reconnect, hsent, List.length_append, List.length_singleton]
  rw [callRpc, hlive, hstubs, hchannel, hcalled]
  simp only [Bool.not_true, Bool.or_self, if_neg Bool.false_ne_true]
  cases houtcome : W.outcome s.sent.length m with
  | rpcError details =>
      exact (hreconnect _ _ rfl).trans (and_iff_right (Or.inl ⟨details, rfl⟩)).symm
  | timeout => exact (hreconnect _ _ rfl).trans (and_iff_right (Or.inr rfl)).symm
  | raised e => simp [hlive]
  | replied reply =>
      dsimp only
      cases replyFields W.loads m reply <;> simp [hlive]

/-- The server goes away after the agent has registered. -/
def goneServer : World := { openServer with outcome := fun _ _ => .timeout }

theorem fallback_callRpc_iff_gone :
    (callRpc Grpc.Token.Golden.hmac goldenConfig goneServer { new with channel := true } .halGate []
      "").2.fallbackMode = true := by
  refine (fallback_callRpc_iff (s := { new with channel := true }) rfl rfl rfl .halGate []
    "").mpr ⟨Or.inr rfl, ?_⟩
  intro i _ reply h
  cases h

end IpcClient

end Agents

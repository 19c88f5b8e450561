/-
# `Cognos.Agents.IpcTasks` — tasks that share one IPC client

The coordinator's tasks call one `AgentIpcClient` at the same time.  A task runs by itself up to
its next `await`: on a reply of the stub, on a channel that closes, on a pause between two
attempts.  There any other task may run, or the first one never again.

    alone_callRpc          a task that nobody interrupts does what `callRpc` does
    spends_resume          what a task may still send, is less by what it sends
    silent_of_fallback     in fallback mode nobody but the tasks under way sends anything, and
                           these only register, until a registration is answered
-/
import Mathlib
import Cognos.Agents.IpcClient

namespace Agents.IpcTasks

open Py (Value Fields)
open Grpc (HmacSha256)
open IpcClient (heartbeatPayload excText)

/-! ## Tasks -/

/-- What a task has been started for: a call of `_call_rpc`, `connect` or `close`. -/
inductive Job
  | call (m : Method) (payload : Fields) (traceId : String)
  | connect
  | close

/-- Where a task waits, with what its request has come to and the attempts that are left. -/
inductive Stage
  /-- on the stub, for the first time -/
  | asked (m : Method) (out : RpcOutcome m)
  /-- on the channel, which an attempt closes to open it anew -/
  | closing (left : Nat)
  /-- on the stub, to register -/
  | registering (out : RpcOutcome .heartbeat) (left : Nat)
  | pausing (left : Nat)
  /-- on the channel, with no attempt left -/
  | leaving
  /-- on the stub, for the last time -/
  | retried (m : Method) (out : RpcOutcome m)
  /-- on the channel, in `close` -/
  | shutting
  | returned (r : Except RpcError Fields)

structure Task where
  job : Job
  stage : Stage

section

variable (M : HmacSha256) (c : IpcConfig) (W : World)

/-- What a job returns in fallback mode. -/
def Job.fallback : Job → Except RpcError Fields
  | .call m payload traceId => .ok (fallbackResponse c m payload traceId)
  | .connect | .close => .ok []

/-- The end of `_establish` after its last attempt. -/
def giveUp (job : Job) (s : IpcClient) : IpcClient × Stage :=
  ({ s.closeChannel with fallbackMode := true }, .returned (job.fallback c))

/-- An attempt of `_establish`, with the old channel closed: up to the reply of the server. -/
def tryRegister (s : IpcClient) (left : Nat) : IpcClient × Stage :=
  let (seq, s) := s.closeChannel.openChannel.nextSeq
  let payload := heartbeatPayload c seq (W.nowNs s.sent.length) 0.0 "register"
  let (out, s) := s.invokeStub M c W .heartbeat payload
  (s, .registering out left)

/-- `_establish` from its next attempt on.  A channel that is there is closed first. -/
def attempts (job : Job) (s : IpcClient) : Nat → IpcClient × Stage
  | 0 => if s.channel then (s, .leaving) else giveUp c job s
  | left + 1 => if s.channel then (s, .closing left) else tryRegister M c W s left

/-- After `_establish` has registered the agent.  The channel may have been closed again. -/
def connected (job : Job) (s : IpcClient) : IpcClient × Stage :=
  match job with
  | .call m payload _ =>
      if s.channel then
        let (out, s) := s.invokeStub M c W m payload
        (s, .retried m out)
      else (s, .returned (.error (.ipc "stub not initialised")))
  | _ => (s, .returned (.ok []))

/-- What a call makes of the first reply. -/
def answered (m : Method) (r : m.Reply) : Except RpcError Fields :=
  match replyFields W.loads m r with
  | .ok fields => .ok fields
  | .error e => .error (.ipc (m.name ++ " error: " ++ excText e))

/-- What the retry comes to. -/
def lastAnswer (m : Method) : RpcOutcome m → Except RpcError Fields
  | .rpcError details => .error (.ipc (m.name ++ " RPC error: " ++ details))
  | .timeout => .error (.ipc (m.name ++ " RPC error: timeout>" ++ c.rpcTimeout ++ "s"))
  | .raised e => .error (.raised e)
  | .replied r => IpcClient.replied W m r

/-- A job from its start to its first `await`. -/
def start (job : Job) (s : IpcClient) : IpcClient × Stage :=
  match job with
  | .call m payload _ =>
      if s.fallbackMode || !c.stubsAvailable then
        ({ s with fallbackMode := true }, .returned (job.fallback c))
      else if !s.channel then
        (s, .returned (.error (.ipc "not connected — call connect() first")))
      else
        let (out, s) := s.invokeStub M c W m payload
        (s, .asked m out)
  | .connect =>
      if !c.stubsAvailable then ({ s with fallbackMode := true }, .returned (.ok []))
      else attempts M c W job s c.maxFailures.toNat
  | .close => if s.channel then (s, .shutting) else (s.closeChannel, .returned (.ok []))

/-- A task from where it waits to its next `await`. -/
def resume (job : Job) (s : IpcClient) : Stage → IpcClient × Stage
  | .asked _ (.rpcError _) | .asked _ .timeout => attempts M c W job s c.maxFailures.toNat
  | .asked m (.raised e) => (s, .returned (.error (.ipc (m.name ++ " error: " ++ excText e))))
  | .asked m (.replied r) => (s, .returned (answered W m r))
  | .closing left => tryRegister M c W s left
  | .registering (.replied _) _ =>
      connected M c W job { s with registered := true, fallbackMode := false }
  | .registering _ 0 => attempts M c W job s 0
  | .registering _ (left + 1) => (s, .pausing (left + 1))
  | .pausing left => attempts M c W job s left
  | .leaving => giveUp c job s
  | .retried m out => (s, .returned (lastAnswer c W m out))
  | .shutting => (s.closeChannel, .returned (.ok []))
  | .returned r => (s, .returned r)

/-! ## All tasks -/

/-- The client, and the tasks that use it, in the order they were started. -/
structure Tasks where
  client : IpcClient
  tasks : List Task

/-- A task is started, or one that waits goes on. -/
inductive Event
  | start (job : Job)
  | resume (i : Nat)

def step (t : Tasks) : Event → Tasks
  | .start job =>
      let (s, stage) := start M c W job t.client
      ⟨s, t.tasks ++ [⟨job, stage⟩]⟩
  | .resume i =>
      match t.tasks[i]? with
      | some task =>
          let (s, stage) := resume M c W task.job t.client task.stage
          ⟨s, t.tasks.set i ⟨task.job, stage⟩⟩
      | none => t

/-! ## One task alone -/

/-- The task goes on at once. -/
def alone (p : IpcClient × Task) : IpcClient × Task :=
  let (s, stage) := resume M c W p.2.job p.1 p.2.stage
  (s, { p.2 with stage := stage })

/-- By itself, a task that has come so far ends with this result. -/
def Ends (job : Job) (p : IpcClient × Stage) (r : Except RpcError Fields × IpcClient) : Prop :=
  ∃ n, (alone M c W)^[n] (p.1, ⟨job, p.2⟩) = (r.2, ⟨job, .returned r.1⟩)

end

variable {M : HmacSha256} {c : IpcConfig} {W : World} {job : Job}

theorem Ends.here {s : IpcClient} {r : Except RpcError Fields} :
    Ends M c W job (s, .returned r) (r, s) := ⟨0, rfl⟩

theorem Ends.next {s : IpcClient} {stage : Stage} {r : Except RpcError Fields × IpcClient}
    (h : Ends M c W job (resume M c W job s stage) r) : Ends M c W job (s, stage) r := by
  obtain ⟨n, hn⟩ := h
  exact ⟨n + 1, by rw [Function.iterate_succ_apply]; exact hn⟩

/-- An attempt sends one registration; `register` is the attempt and its reply in one. -/
theorem tryRegister_cases (s : IpcClient) (left : Nat) : ∃ r s',
    tryRegister M c W s left = (s', .registering (W.outcome s.sent.length .heartbeat) left) ∧
      s'.sent = s.sent ++ [r] ∧ r.method = .heartbeat ∧ s'.fallbackMode = s.fallbackMode ∧
      s'.channel = true ∧ s.closeChannel.openChannel.register M c W =
        match W.outcome s.sent.length .heartbeat with
        | .replied _ => (true, { s' with registered := true })
        | _ => (false, s') := by
  obtain ⟨token, expiry, hcalled⟩ := IpcClient.exists_invokeStub (M := M) (c := c) (W := W)
    s.closeChannel.openChannel.nextSeq.2 .heartbeat
    (heartbeatPayload c (s.seq + 1) (W.nowNs s.sent.length) 0.0 "register")
  have hregister := IpcClient.register_eq (M := M) (c := c) (W := W) s.closeChannel.openChannel
  have htry : ∀ called, s.closeChannel.openChannel.nextSeq.2.invokeStub M c W .heartbeat
      (heartbeatPayload c (s.seq + 1) (W.nowNs s.sent.length) 0.0 "register") = called →
      tryRegister M c W s left = (called.2, .registering called.1 left) := by
    rintro _ rfl
    rfl
  refine ⟨_, _, htry _ hcalled, rfl, rfl, rfl, rfl, ?_⟩
  have hseq : s.closeChannel.openChannel.seq = s.seq := rfl
  have hsent : s.closeChannel.openChannel.sent = s.sent := rfl
  rw [hregister, hseq, hsent, hcalled]
  have hsame : s.closeChannel.openChannel.nextSeq.2.sent = s.sent := rfl
  rw [hsame]
  cases W.outcome s.sent.length .heartbeat <;> rfl

/-- When `establish` has registered the agent, there is a channel. -/
theorem channel_establishFrom (s : IpcClient) (n : Nat)
    (h : (s.establishFrom M c W n).fallbackMode = false) :
    (s.establishFrom M c W n).channel = true := by
  induction n generalizing s with
  | zero => cases h
  | succ n ih =>
      obtain ⟨r, s', -, -, -, -, hchannel, hregister⟩ :=
        tryRegister_cases (M := M) (c := c) (W := W) s n
      rw [IpcClient.establishFrom, hregister] at h ⊢
      cases hout : W.outcome s.sent.length .heartbeat with
      | replied reply => exact hchannel
      | _ =>
          rw [hout] at h
          exact ih s' h

/-- The attempts end with the client that `establishFrom` gives, in fallback mode or connected. -/
theorem ends_attempts {s : IpcClient} {n : Nat} {r : Except RpcError Fields × IpcClient}
    (h : Ends M c W job (if (s.establishFrom M c W n).fallbackMode
      then (s.establishFrom M c W n, .returned (job.fallback c))
      else connected M c W job (s.establishFrom M c W n)) r) :
    Ends M c W job (attempts M c W job s n) r := by
  induction n generalizing s with
  | zero =>
      have hgive : Ends M c W job (giveUp c job s) r := h
      rw [attempts]
      split
      · exact Ends.next hgive
      · exact hgive
  | succ n ih =>
      obtain ⟨req, s', htry, -, -, -, -, hregister⟩ :=
        tryRegister_cases (M := M) (c := c) (W := W) s n
      have hends : Ends M c W job (tryRegister M c W s n) r := by
        rw [IpcClient.establishFrom, hregister] at h
        rw [htry]
        cases hout : W.outcome s.sent.length .heartbeat with
        | replied reply =>
            rw [hout] at h
            exact Ends.next h
        | _ =>
            rw [hout] at h
            have hrest : Ends M c W job (attempts M c W job s' n) r := ih h
            cases n with
            | zero => exact Ends.next hrest
            | succ n => exact Ends.next (Ends.next hrest)
      rw [attempts]
      split
      · exact Ends.next hends
      · exact hends

/-- A call that nobody interrupts is `callRpc`. -/
theorem alone_callRpc (s : IpcClient) (m : Method) (payload : Fields) (traceId : String) :
    Ends M c W (.call m payload traceId) (start M c W (.call m payload traceId) s)
      (s.callRpc M c W m payload traceId) := by
  obtain ⟨token, expiry, hcalled⟩ :=
    IpcClient.exists_invokeStub (M := M) (c := c) (W := W) s m payload
  have hreconnect : ∀ s' : IpcClient, Ends M c W (.call m payload traceId)
      (attempts M c W (.call m payload traceId) s' c.maxFailures.toNat)
      (s'.reconnect M c W m payload traceId) := by
    intro s'
    refine ends_attempts ?_
    rw [IpcClient.reconnect, IpcClient.establish]
    by_cases hmode : (s'.establishFrom M c W c.maxFailures.toNat).fallbackMode = true
    · simp only [if_pos hmode]
      exact Ends.here
    · have hchannel := channel_establishFrom s' c.maxFailures.toNat (Bool.eq_false_iff.mpr hmode)
      simp only [if_neg hmode, connected, hchannel, if_true]
      refine Ends.next ?_
      rw [IpcClient.retry]
      generalize (s'.establishFrom M c W c.maxFailures.toNat).invokeStub M c W m payload = called
      obtain ⟨out, s''⟩ := called
      cases out <;> exact Ends.here
  rw [start, IpcClient.callRpc]
  split
  · exact Ends.here
  · split
    · exact Ends.here
    · rw [hcalled]
      refine Ends.next ?_
      cases W.outcome s.sent.length m with
      | rpcError details => exact hreconnect _
      | timeout => exact hreconnect _
      | raised e => exact Ends.here
      | replied reply =>
          simp only [resume, answered]
          cases replyFields W.loads m reply <;> exact Ends.here

/-! ## Fallback mode -/

/-- The registrations a task may still send, while none is answered. -/
def Stage.left (c : IpcConfig) : Stage → Nat
  | .asked _ _ => c.maxFailures.toNat
  | .closing left => left + 1
  | .registering _ left | .pausing left => left
  | _ => 0

def Tasks.left (c : IpcConfig) (t : Tasks) : Nat := (t.tasks.map (·.stage.left c)).sum

/-- And one that is started in fallback mode: only `connect` tries. -/
def Event.left (c : IpcConfig) : Event → Nat
  | .start .connect => c.maxFailures.toNat
  | _ => 0

/-- The step is not one that ends a registration the server answered. -/
def Unanswered (t : Tasks) : Event → Prop
  | .start _ => True
  | .resume i => ∀ task, t.tasks[i]? = some task →
      ∀ reply left, task.stage ≠ .registering (.replied reply) left

/-- From `s`, the client stays in fallback mode and sends registrations, so many with those that
are left. -/
def Spends (c : IpcConfig) (s : IpcClient) (most : Nat) (p : IpcClient × Stage) : Prop :=
  p.1.fallbackMode = true ∧ ∃ rs, p.1.sent = s.sent ++ rs ∧
    (∀ r ∈ rs, r.method = .heartbeat) ∧ rs.length + p.2.left c ≤ most

theorem spends_nothing {s s' : IpcClient} {stage : Stage} {most : Nat}
    (hmode : s'.fallbackMode = true) (hsent : s'.sent = s.sent) (h : stage.left c ≤ most) :
    Spends c s most (s', stage) :=
  ⟨hmode, [], by rw [hsent, List.append_nil], fun r hr => absurd hr List.not_mem_nil,
    by simpa using h⟩

section

variable {s : IpcClient} (h : s.fallbackMode = true)

include h

theorem spends_tryRegister (left : Nat) : Spends c s (left + 1) (tryRegister M c W s left) := by
  obtain ⟨r, s', htry, hsent, hmethod, hmode, -, -⟩ :=
    tryRegister_cases (M := M) (c := c) (W := W) s left
  rw [htry]
  refine ⟨hmode.trans h, [r], hsent, fun r' hr' => ?_, ?_⟩
  · rw [List.mem_singleton.mp hr', hmethod]
  · rw [List.length_singleton, Nat.add_comm]
    exact Nat.le_refl _

theorem spends_attempts (left : Nat) : Spends c s left (attempts M c W job s left) := by
  cases left with
  | zero =>
      rw [attempts]
      split
      · exact spends_nothing h rfl (Nat.le_refl _)
      · exact spends_nothing rfl rfl (Nat.le_refl _)
  | succ left =>
      rw [attempts]
      split
      · exact spends_nothing h rfl (Nat.le_refl _)
      · exact spends_tryRegister h left

/-- What a task may still send, is less by what it sends. -/
theorem spends_resume {stage : Stage}
    (hstage : ∀ reply left, stage ≠ .registering (.replied reply) left) :
    Spends c s (stage.left c) (resume M c W job s stage) := by
  cases stage with
  | asked m out =>
      cases out with
      | rpcError details => exact spends_attempts h _
      | timeout => exact spends_attempts h _
      | raised e => exact spends_nothing h rfl (Nat.zero_le _)
      | replied r => exact spends_nothing h rfl (Nat.zero_le _)
  | closing left => exact spends_tryRegister h left
  | registering out left =>
      have hfails : Spends c s left (match left with
          | 0 => attempts M c W job s 0
          | left + 1 => (s, .pausing (left + 1))) := by
        cases left with
        | zero => exact spends_attempts h 0
        | succ left => exact spends_nothing h rfl (Nat.le_refl _)
      cases out with
      | replied reply => exact absurd rfl (hstage reply left)
      | rpcError details => cases left <;> exact hfails
      | timeout => cases left <;> exact hfails
      | raised e => cases left <;> exact hfails
  | pausing left => exact spends_attempts h left
  | leaving => exact spends_nothing rfl rfl (Nat.le_refl _)
  | retried m out => exact spends_nothing h rfl (Nat.le_refl _)
  | shutting => exact spends_nothing h rfl (Nat.le_refl _)
  | returned r => exact spends_nothing h rfl (Nat.le_refl _)

/-- A call is answered where it starts. -/
theorem start_call (m : Method) (payload : Fields) (traceId : String) :
    start M c W (.call m payload traceId) s =
      (s, .returned (.ok (fallbackResponse c m payload traceId))) := by
  have hsame : { s with fallbackMode := true } = s := by rw [← h]
  rw [start, h, Bool.true_or, if_pos rfl, hsame]
  rfl

theorem spends_start : Spends c s ((Event.start job).left c) (start M c W job s) := by
  cases job with
  | call m payload traceId =>
      rw [start_call h]
      exact spends_nothing h rfl (Nat.le_refl _)
  | connect =>
      rw [start]
      split
      · exact spends_nothing rfl rfl (Nat.zero_le _)
      · exact spends_attempts h _
  | close =>
      rw [start]
      split
      · exact spends_nothing h rfl (Nat.le_refl _)
      · exact spends_nothing h rfl (Nat.le_refl _)

end

theorem sum_map_set {α : Type} (f : α → Nat) {l : List α} {i : Nat} {x : α} (y : α)
    (hx : l[i]? = some x) : ((l.set i y).map f).sum + f x = (l.map f).sum + f y := by
  induction l generalizing i with
  | nil => cases hx
  | cons z l ih =>
      cases i with
      | zero =>
          obtain rfl := Option.some.inj hx
          simp only [List.set_cons_zero, List.map_cons, List.sum_cons]
          omega
      | succ i =>
          have hrest := ih hx
          simp only [List.set_cons_succ, List.map_cons, List.sum_cons]
          omega

/-- A step in fallback mode. -/
theorem spends_step {t : Tasks} {e : Event} (hmode : t.client.fallbackMode = true)
    (he : Unanswered t e) : (step M c W t e).client.fallbackMode = true ∧
      ∃ rs, (step M c W t e).client.sent = t.client.sent ++ rs ∧
        (∀ r ∈ rs, r.method = .heartbeat) ∧
        rs.length + (step M c W t e).left c ≤ t.left c + e.left c := by
  have hstays : ∃ rs, t.client.sent = t.client.sent ++ rs ∧
      (∀ r ∈ rs, r.method = .heartbeat) ∧ rs.length + t.left c ≤ t.left c + e.left c :=
    ⟨[], (List.append_nil _).symm, fun r hr => absurd hr List.not_mem_nil, by simp⟩
  cases e with
  | start job =>
      have hstart : Spends c t.client ((Event.start job).left c) (start M c W job t.client) :=
        spends_start hmode
      obtain ⟨hafter, rs, hsent, hmethods, hcount⟩ := hstart
      refine ⟨hafter, rs, hsent, hmethods, ?_⟩
      simp only [step, Tasks.left, List.map_append, List.sum_append, List.map_cons, List.map_nil,
        List.sum_cons, List.sum_nil]
      omega
  | resume i =>
      rw [step]
      split
      · next task htask =>
          have hresume : Spends c t.client (task.stage.left c)
              (resume M c W task.job t.client task.stage) := spends_resume hmode (he task htask)
          obtain ⟨hafter, rs, hsent, hmethods, hcount⟩ := hresume
          refine ⟨hafter, rs, hsent, hmethods, ?_⟩
          have hsum := sum_map_set (·.stage.left c)
            ⟨task.job, (resume M c W task.job t.client task.stage).2⟩ htask
          dsimp only at hsum
          simp only [Tasks.left]
          omega
      · exact ⟨hmode, hstays⟩

/-- A run in fallback mode. -/
theorem spends_run {t : Tasks} {es : List Event} (hmode : t.client.fallbackMode = true)
    (hes : Run.Along (step M c W) Unanswered t es) :
    ∃ rs, (Run.after (step M c W) t es).client.sent = t.client.sent ++ rs ∧
      (∀ r ∈ rs, r.method = .heartbeat) ∧
      rs.length + (Run.after (step M c W) t es).left c ≤
        t.left c + (es.map (Event.left c)).sum := by
  induction es generalizing t with
  | nil =>
      exact ⟨[], (List.append_nil _).symm, fun r hr => absurd hr List.not_mem_nil, by simp⟩
  | cons e es ih =>
      obtain ⟨hafter, rs, hsent, hmethods, hcount⟩ := spends_step hmode hes.1
      obtain ⟨rs', hsent', hmethods', hcount'⟩ := ih hafter hes.2
      refine ⟨rs ++ rs', ?_, fun r hr => ?_, ?_⟩
      · rw [Run.after_cons, hsent', hsent, List.append_assoc]
      · exact (List.mem_append.mp hr).elim (hmethods r) (hmethods' r)
      · rw [Run.after_cons, List.length_append, List.map_cons, List.sum_cons]
        omega

/-- The calls started after the first `k` tasks have returned with an answer of the client. -/
def Made (c : IpcConfig) (k : Nat) (t : Tasks) : Prop :=
  ∀ i, k ≤ i → ∀ m payload traceId stage, t.tasks[i]? = some ⟨.call m payload traceId, stage⟩ →
    stage = .returned (.ok (fallbackResponse c m payload traceId))

theorem made_step {k : Nat} {t : Tasks} {e : Event} (hmode : t.client.fallbackMode = true)
    (h : Made c k t) : Made c k (step M c W t e) := by
  intro i hi m payload traceId stage hat
  cases e with
  | start job =>
      have hat : (t.tasks ++ [⟨job, (start M c W job t.client).2⟩])[i]? = _ := hat
      rcases Nat.lt_or_ge i t.tasks.length with hlt | hge
      · rw [List.getElem?_append_left hlt] at hat
        exact h i hi m payload traceId stage hat
      · rw [List.getElem?_append_right hge, List.getElem?_singleton] at hat
        split at hat
        · cases hat
          rw [start_call hmode]
        · cases hat
  | resume j =>
      rw [step] at hat
      split at hat
      · next task htask =>
          obtain ⟨job, stage'⟩ := task
          by_cases hj : j = i
          · subst hj
            rw [List.getElem?_set_self (List.getElem?_eq_some_iff.mp htask).1] at hat
            cases hat
            rw [h j hi m payload traceId stage' htask]
            rfl
          · rw [List.getElem?_set_ne hj] at hat
            exact h i hi m payload traceId stage hat
      · exact h i hi m payload traceId stage hat

/-- From a moment in fallback mode on, and as long as no registration is answered, in any order of
the tasks: the client stays in fallback mode; a call that is started is answered by the client,
and granted nothing; and all that is sent are the registrations the tasks under way and the
connects have left. -/
theorem silent_of_fallback {t : Tasks} (hmode : t.client.fallbackMode = true) {es : List Event}
    (hes : Run.Along (step M c W) Unanswered t es) :
    (Run.after (step M c W) t es).client.fallbackMode = true ∧
      (∀ i, t.tasks.length ≤ i → ∀ m payload traceId stage,
        (Run.after (step M c W) t es).tasks[i]? = some ⟨.call m payload traceId, stage⟩ →
        ∃ fields, stage = .returned (.ok fields) ∧ fields = fallbackResponse c m payload traceId ∧
          fields.lookup "status" ≠ some (.str "granted")) ∧
      ∃ rs, (Run.after (step M c W) t es).client.sent = t.client.sent ++ rs ∧
        (∀ r ∈ rs, r.method = .heartbeat) ∧
        rs.length ≤ t.left c + (es.map (Event.left c)).sum := by
  have hnone : Made c t.tasks.length t := by
    intro i hi m payload traceId stage hat
    rw [List.getElem?_eq_none hi] at hat
    cases hat
  have hmade := Run.invariant (step M c W)
    (I := fun t' => t'.client.fallbackMode = true ∧ Made c t.tasks.length t')
    (fun t' e ht' he => ⟨(spends_step ht'.1 he).1, made_step ht'.1 ht'.2⟩) ⟨hmode, hnone⟩ hes
  refine ⟨hmade.1, fun i hi m payload traceId stage hat => ?_, ?_⟩
  · refine ⟨_, hmade.2 i hi m payload traceId stage hat, rfl, ?_⟩
    exact IpcClient.status_fallbackResponse m payload traceId
  · obtain ⟨rs, hsent, hmethods, hcount⟩ := spends_run hmode hes
    exact ⟨rs, hsent, hmethods, by omega⟩

/-- A client that fell back while a task was about to try once more. -/
def oneMore : Tasks where
  client := { IpcClient.new with channel := true, fallbackMode := true }
  tasks := [⟨.call .halGate [] "", .closing 0⟩]

/-- That task fails for good, and another one starts meanwhile. -/
theorem silent_of_fallback_oneMore :
    let t := Run.after (step Grpc.Token.Golden.hmac IpcClient.goldenConfig IpcClient.goneServer)
      oneMore [.resume 0, .start (.call .halGate [] ""), .resume 0, .resume 0]
    t.client.fallbackMode = true ∧ ∃ rs, t.client.sent = rs ∧
      (∀ r ∈ rs, r.method = .heartbeat) ∧ rs.length ≤ 1 := by
  have hes : Run.Along (step Grpc.Token.Golden.hmac IpcClient.goldenConfig IpcClient.goneServer)
      Unanswered oneMore
      [.resume 0, .start (.call .halGate [] ""), .resume 0, .resume 0] := by
    refine ⟨?_, trivial, ?_, ?_, trivial⟩
    all_goals
      intro task htask reply left hstage
      cases htask
      cases hstage
  obtain ⟨hmode, -, hsent⟩ := silent_of_fallback (t := oneMore) rfl hes
  exact ⟨hmode, hsent⟩

end Agents.IpcTasks

/-
# `Cognos.Agents.Coordinator` — where the coordinator sends an intent

`coordinator.py`: an intent goes to the agent of its goal; for an install the security agent is
asked first.  A call goes to an agent of the same process, if there is one, and else over IPC;
what goes wrong on the way comes back as `None`.

    sent_callAgent         a critical call is always sent
    sent_install           after the security agent, an install always goes on
    install_approved_iff   only where the security agent said `approved: True` is that right
-/
import Mathlib
import Cognos.Lib.PyValue

namespace Agents

open Py (Value Fields Exc get)

/-! ## Health -/

/-- What is counted of an agent's calls.  Over a fifth of failures it is degraded, over a half
unavailable. -/
structure AgentHealth where
  totalRequests : Nat
  failedRequests : Nat
  isDegraded : Bool
  isUnavailable : Bool
  deriving DecidableEq

def AgentHealth.new : AgentHealth := ⟨0, 0, false, false⟩

def AgentHealth.recordResult (h : AgentHealth) (success : Bool) : AgentHealth :=
  let total := h.totalRequests + 1
  let failed := if success then h.failedRequests else h.failedRequests + 1
  ⟨total, failed, decide (total < 5 * failed), decide (total < 2 * failed)⟩

/-! ## Calls -/

/-- How awaiting an agent ends badly. -/
inductive CallError
  | timeout
  | exception (e : Exc)

/-- An agent of this process: whether it has a `plan` and a `handle_message`. -/
structure LocalAgent where
  hasPlan : Bool
  hasHandleMessage : Bool

/-- What a call meets: the local agent, if it could be made, what awaiting it gives, and what
awaiting the IPC client gives. -/
structure Meeting where
  localAgent : Option LocalAgent
  localResult : Except CallError Value
  ipcResult : Except CallError Fields

/-- A message that was handed to an agent. -/
structure Sent where
  agent : String
  msgType : String
  payload : Fields

/-- The coordinator's counts, what it has sent, and the agents it asked to be restarted. -/
structure Coordinator where
  health : List (String × AgentHealth)
  sent : List Sent
  restarted : List String

namespace Coordinator

/-- The agents whose health is tracked. -/
def agents : List String := ["planner", "memory", "security", "scheduler", "file", "coding"]

def new : Coordinator := ⟨agents.map fun name => (name, .new), [], []⟩

/-- The health of an agent; of an unknown one, a new one that is not kept. -/
def healthOf (s : Coordinator) (agent : String) : AgentHealth :=
  (s.health.lookup agent).getD .new

def record (s : Coordinator) (agent : String) (success : Bool) : Coordinator :=
  { s with
    health := s.health.map fun p =>
      if p.1 = agent then (p.1, p.2.recordResult success) else p }

def send (s : Coordinator) (m : Sent) : Coordinator := { s with sent := s.sent ++ [m] }

/-- A plan that is no dictionary: a dataclass gives its fields, its steps as `actions`. -/
def planFields : Value → Fields
  | .record fields =>
      let plan := Value.asdictFields fields
      match plan.lookup "steps" with
      | some steps =>
          plan.filter (fun f => f.1 ≠ "steps" ∧ f.1 ≠ "actions") ++ [("actions", steps)]
      | none => plan
  | v => [("data", v)]

/-- What a local agent's result comes back as. -/
def localReply (viaPlan : Bool) : Value → Fields
  | .dict fields => fields
  | v => if viaPlan then planFields v else [("status", .str "ok"), ("data", v)]

/-- How a local agent is called: by its `plan`, by its `handle_message`, or not at all. -/
def localRoute (agent : String) (m : Meeting) : Option Bool :=
  match m.localAgent with
  | none => none
  | some found =>
      if agent = "planner" ∧ found.hasPlan = true then some true
      else if found.hasHandleMessage then some false
      else none

/-- The call over IPC.  An agent that is unavailable after a timeout is asked to restart. -/
def callIpc (s : Coordinator) (m : Meeting) (agent : String) : Option Fields × Coordinator :=
  match m.ipcResult with
  | .ok result => (some result, s.record agent true)
  | .error .timeout =>
      let s := s.record agent false
      (none, if (s.healthOf agent).isUnavailable then { s with restarted := s.restarted ++ [agent] }
        else s)
  | .error (.exception _) => (none, s.record agent false)

/-- Send a message to an agent and await its answer; `None` on failure. -/
def callAgent (s : Coordinator) (m : Meeting) (agent msgType : String) (payload : Fields)
    (critical : Bool) : Option Fields × Coordinator :=
  if (s.healthOf agent).isUnavailable && !critical then (none, s)
  else
    let s := s.send ⟨agent, msgType, payload⟩
    match localRoute agent m with
    | some viaPlan =>
        match m.localResult with
        | .ok v => (some (localReply viaPlan v), s.record agent true)
        | .error _ => (none, s.record agent false)
    | none => callIpc s m agent

/-! ## Routing -/

def openGoals : List String := ["open_workspace", "find_files", "retrieve_context"]

def codingGoals : List String := ["coding_task", "refactor", "implement", "debug"]

def securityGoals : List String := ["security_concern", "audit_app", "check_permissions"]

def installGoals : List String := ["install_package", "uninstall_package"]

def configGoals : List String := ["system_config", "modify_settings"]

/-- What the security agent is asked before an install. -/
def trustPayload (schema : Fields) : Fields :=
  [("package", get schema "package" (get schema "goal" (.str ""))),
    ("source", get schema "source" (.str "apt")), ("schema", .dict schema)]

def installPayload (schema : Fields) : Fields :=
  [("operation", .str "install"), ("schema", .dict schema)]

/-- `security_resp and security_resp.get("approved", True)`, tested. -/
def letsInstall : Option Fields → Bool
  | none => false
  | some reply => !reply.isEmpty && (get reply "approved" (.bool true)).truthy

/-- Route to the primary agent based on the intent goal.  `first` and `second` are what the
first and the second call meet. -/
def routePrimary (s : Coordinator) (first second : Meeting) (goal : String) (schema : Fields) :
    Option Fields × Coordinator :=
  if goal ∈ openGoals then
    s.callAgent first "file" "FILE_OPERATION"
      [("operation", .str "open_workspace"), ("schema", .dict schema)] true
  else if goal ∈ codingGoals then s.callAgent first "coding" "INTENT_DISPATCH" schema true
  else if goal ∈ securityGoals then s.callAgent first "security" "SECURITY_ALERT" schema true
  else if goal ∈ installGoals then
    match s.callAgent first "security" "INSTALL_TRUST" (trustPayload schema) true with
    | (securityResp, s) =>
        if letsInstall securityResp then
          s.callAgent second "file" "FILE_OPERATION" (installPayload schema) true
        else s.callAgent second "planner" "INTENT_DISPATCH" schema true
  else if goal ∈ configGoals then s.callAgent first "planner" "HAL_GATE_REQUEST" schema true
  else s.callAgent first "planner" "INTENT_DISPATCH" schema true

/-! ## Installs -/

/-- The message has an agent carry the request out. -/
def Executes (schema : Fields) (m : Sent) : Prop :=
  m = ⟨"file", "FILE_OPERATION", installPayload schema⟩ ∨ m = ⟨"planner", "INTENT_DISPATCH", schema⟩

/-- The dictionary the security agent answers with, itself or over IPC. -/
def answer (agent : String) (m : Meeting) : Option Fields :=
  match localRoute agent m with
  | some _ =>
      match m.localResult with
      | .ok (.dict fields) => some fields
      | _ => none
  | none =>
      match m.ipcResult with
      | .ok fields => some fields
      | .error _ => none

/-- The security agent's reply explicitly says `approved: True`. -/
def Approved (m : Meeting) : Prop :=
  ∃ reply, answer "security" m = some reply ∧ reply.lookup "approved" = some (.bool true)

theorem sent_record (s : Coordinator) (agent : String) (success : Bool) :
    (s.record agent success).sent = s.sent := rfl

/-- A critical call is always sent. -/
theorem sent_callAgent (s : Coordinator) (m : Meeting) (agent msgType : String)
    (payload : Fields) :
    (s.callAgent m agent msgType payload true).2.sent = s.sent ++ [⟨agent, msgType, payload⟩] := by
  unfold callAgent
  rw [Bool.not_true, Bool.and_false, if_neg Bool.false_ne_true]
  cases hroute : localRoute agent m with
  | some viaPlan =>
      cases hlocal : m.localResult with
      | ok v => rfl
      | error e => rfl
  | none =>
      show (callIpc (s.send ⟨agent, msgType, payload⟩) m agent).2.sent = _
      unfold callIpc
      cases m.ipcResult with
      | ok result => rfl
      | error e =>
          cases e with
          | timeout =>
              simp only
              split_ifs <;> rfl
          | exception e => rfl

/-- Whatever the security agent says, an install goes on: to the file agent, or to the planner. -/
theorem sent_install (s : Coordinator) (first second : Meeting) {goal : String}
    (hgoal : goal ∈ installGoals) (schema : Fields) :
    ∃ m, Executes schema m ∧ (s.routePrimary first second goal schema).2.sent =
      s.sent ++ [⟨"security", "INSTALL_TRUST", trustPayload schema⟩, m] := by
  have hroute : s.routePrimary first second goal schema =
      match s.callAgent first "security" "INSTALL_TRUST" (trustPayload schema) true with
      | (securityResp, s) =>
          if letsInstall securityResp then
            s.callAgent second "file" "FILE_OPERATION" (installPayload schema) true
          else s.callAgent second "planner" "INTENT_DISPATCH" schema true := by
    have hothers : goal ∉ openGoals ∧ goal ∉ codingGoals ∧ goal ∉ securityGoals := by
      rcases List.mem_pair.mp hgoal with rfl | rfl
      · decide
      · decide
    rw [routePrimary, if_neg hothers.1, if_neg hothers.2.1, if_neg hothers.2.2, if_pos hgoal]
  rw [hroute]
  have hasked := sent_callAgent s first "security" "INSTALL_TRUST" (trustPayload schema)
  cases hcall : s.callAgent first "security" "INSTALL_TRUST" (trustPayload schema) true with
  | mk securityResp s' =>
      rw [hcall] at hasked
      simp only
      split_ifs
      · refine ⟨_, Or.inl rfl, ?_⟩
        rw [sent_callAgent, show s'.sent = _ from hasked, List.append_assoc]
        rfl
      · refine ⟨_, Or.inr rfl, ?_⟩
        rw [sent_callAgent, show s'.sent = _ from hasked, List.append_assoc]
        rfl

/-- What the routing of an install sends on is approved exactly when the security agent's reply
says so. -/
theorem install_approved_iff (s : Coordinator) (first second : Meeting) {goal : String}
    (hgoal : goal ∈ installGoals) (schema : Fields) :
    (∀ m ∈ ((s.routePrimary first second goal schema).2.sent.drop s.sent.length),
      Executes schema m → Approved first) ↔ Approved first := by
  obtain ⟨m, hexecutes, hsent⟩ := s.sent_install first second hgoal schema
  rw [hsent, List.drop_left]
  constructor
  · intro h
    exact h m (List.mem_cons_of_mem _ (List.mem_singleton_self m)) hexecutes
  · intro h m _ _
    exact h

/-! A package from apt. -/

def ripgrep : Fields := [("goal", .str "install_package"), ("package", .str "ripgrep")]

/-- The local security agent gives this answer. -/
def replying (reply : Value) : Meeting := ⟨some ⟨false, true⟩, .ok reply, .error .timeout⟩

/-- There is no local agent. -/
def remote (result : Except CallError Fields) : Meeting := ⟨none, .error .timeout, result⟩

theorem install_approved_ripgrep :
    (∀ m ∈ ((new.routePrimary (replying (.dict [("approved", .bool true)])) (remote (.ok []))
        "install_package" ripgrep).2.sent.drop new.sent.length),
      Executes ripgrep m → Approved (replying (.dict [("approved", .bool true)]))) ↔
      Approved (replying (.dict [("approved", .bool true)])) :=
  install_approved_iff new (replying (.dict [("approved", .bool true)])) (remote (.ok []))
    List.mem_cons_self ripgrep

/-- A denial, a timeout and an answer without `approved`: the request goes on to the planner, to
the planner, and to the file agent. -/
theorem not_install_approved :
    (∀ first ∈ [replying (.dict [("approved", .bool false)]), remote (.error .timeout),
        replying (.dict [("status", .str "denied")])],
      ¬ ∀ m ∈ ((new.routePrimary first (remote (.ok [])) "install_package"
        ripgrep).2.sent.drop new.sent.length), Executes ripgrep m → Approved first) ∧
    ((new.routePrimary (replying (.dict [("approved", .bool false)])) (remote (.ok []))
        "install_package" ripgrep).2.sent.map fun m => (m.agent, m.msgType)) =
      [("security", "INSTALL_TRUST"), ("planner", "INTENT_DISPATCH")] ∧
    ((new.routePrimary (replying (.dict [("status", .str "denied")])) (remote (.ok []))
        "install_package" ripgrep).2.sent.map fun m => (m.agent, m.msgType)) =
      [("security", "INSTALL_TRUST"), ("file", "FILE_OPERATION")] := by
  refine ⟨?_, rfl, rfl⟩
  intro first hfirst h
  obtain ⟨m, hexecutes, hsent⟩ :=
    new.sent_install first (remote (.ok [])) List.mem_cons_self ripgrep
  have hmem : m ∈ ((new.routePrimary first (remote (.ok [])) "install_package"
      ripgrep).2.sent.drop new.sent.length) := by
    rw [hsent, List.drop_left]
    exact List.mem_cons_of_mem _ (List.mem_singleton_self m)
  obtain ⟨reply, hreply, happroved⟩ := h m hmem hexecutes
  rcases List.mem_cons.mp hfirst with rfl | hfirst
  · obtain rfl := Option.some.inj hreply
    cases happroved
  · rcases List.mem_pair.mp hfirst with rfl | rfl
    · cases hreply
    · obtain rfl := Option.some.inj hreply
      cases happroved

end Coordinator

end Agents

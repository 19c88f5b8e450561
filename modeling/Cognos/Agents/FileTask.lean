/-
# `Cognos.Agents.FileTask` — the one-shot file agent

`file_task.py`: reads one request, runs one operation of the file agent and prints what came
of it.  With `COGNOS_FILE_AGENT_HAL` set, the agent asks HAL through `HalIpcWrapper`, and so
through the IPC client.

    changed_of_granted     with HAL on, only `create_file` changes files, and only after the
                           server granted this very request
    exit_zero_iff          with HAL on, the task succeeds exactly when the directory is there
                           already, or a new file was granted and written: the agent asks for a
                           directory with one argument less than the wrapper takes
-/
import Mathlib
import Cognos.Agents.FileAgent
import Cognos.Agents.IpcClient

namespace Agents

open Py (Value Fields Exc pathParent)
open Grpc (HmacSha256)

/-! ## The wrapper -/

/-- The exception itself. -/
def RpcError.exc : RpcError → Exc
  | .ipc text => .other "IpcClientError" text
  | .raised e => e

section Task

variable (M : HmacSha256) (c : IpcConfig) (W : World) (traceId : String)

/-- The wrapper's client is `agent.file`. -/
def wrapperConfig (c : IpcConfig) : IpcConfig := { c with agentId := "agent.file" }

/-- `HalIpcWrapper.gate`, on a wrapper that has not connected yet: the answer, and the client. -/
def HalIpcWrapper.gate (_agent action target : String) (_preScore : Float)
    (_isAiGenerated : Bool) : Except Exc Fields × IpcClient :=
  let c := wrapperConfig c
  let client := IpcClient.new.connect M c W
  match client.halGate M c W (.str action) (.str target) (.other false) (.str "file.write")
      (.bool true) traceId with
  | (.error e, client) => (.error e.exc, client)
  | (.ok resp, client) => (.ok (wrapped resp), client)

/-- What Python says of a call without `is_ai_generated`. -/
def missingArgument : Exc :=
  .other "TypeError"
    "HalIpcWrapper.gate() missing 1 required positional argument: 'is_ai_generated'"

/-- The wrapper as a client of HAL: a call needs all five arguments. -/
def HalIpcWrapper.client : HalClient
  | .keywords agent action target preScore isAi =>
      (HalIpcWrapper.gate M c W traceId agent action target preScore isAi).1
  | .positional _ _ _ _ => .error missingArgument

/-! ## The task -/

/-- `COGNOS_FILE_AGENT_HAL` is not one of the values that switch HAL off. -/
def halEnabled (flag : String) : Bool := flag ∉ ["0", "false", "False"]

/-- The dictionary of a result. -/
def resultFields (result : OperationResult) : Fields :=
  [("success", .bool result.success), ("message", .str result.message)] ++
    if (Py.get result.extra "hal_status" .none).truthy then
      [("hal_status", Py.get result.extra "hal_status" .none),
        ("hal_risk_score", Py.get result.extra "hal_risk_score" .none)]
    else []

variable (F : FileSystem) (w : PathWorld)

/-- `run_task`, with the value of `COGNOS_FILE_AGENT_HAL`. -/
def runTask (flag : String) (tree : F.Tree) (action target : String) :
    Except Exc Fields × F.Tree :=
  let hal := if halEnabled flag then some (HalIpcWrapper.client M c W traceId) else none
  let finish (done : Except Exc OperationResult × F.Tree) : Except Exc Fields × F.Tree :=
    (done.1.map resultFields, done.2)
  if action = "create_dir" then finish (createDirectory F w hal tree target)
  else if action = "create_file" then finish (createFile F w hal tree target "" false)
  else
    (.ok [("success", .bool false), ("message", .str ("unsupported action: " ++ action))], tree)

/-- `main`: what is printed, the exit code, and the file system. -/
def fileTask (flag : String) (tree : F.Tree) (action target : String) :
    Fields × Int × F.Tree :=
  let (returned, tree) := runTask M c W traceId F w flag tree action target
  let result := match returned with
    | .ok result => result
    | .error e => [("success", .bool false), ("message", .str (IpcClient.excText e))]
  (result, if (Py.get result "success" .none).truthy then 0 else 1, tree)

variable {M c W traceId F w}

/-! ## With HAL -/

/-- The server granted `action` on `target` in the reply to the last request of the client. -/
def Granted (W : World) (client : IpcClient) (action target : String) : Prop :=
  ∃ front r reply, client.sent = front ++ [r] ∧ r.method = .halGate ∧
    r.payload.lookup "op" = some (.str action) ∧
    r.payload.lookup "device" = some (.str target) ∧
    W.outcome front.length .halGate = .replied reply ∧ HalGateReply.status reply = "granted"

/-- The wrapper approves what the server granted. -/
theorem granted_of_gate {agent action target : String} {preScore : Float} {isAi : Bool}
    {fields : Fields}
    (hgate : (HalIpcWrapper.gate M c W traceId agent action target preScore isAi).1 = .ok fields)
    (happroved : (Py.get fields "approved" (.bool true)).truthy = true) :
    Granted W (HalIpcWrapper.gate M c W traceId agent action target preScore isAi).2 action
      target := by
  unfold HalIpcWrapper.gate at hgate ⊢
  cases hcall : (IpcClient.new.connect M (wrapperConfig c) W).halGate M (wrapperConfig c) W
      (.str action) (.str target) (.other false) (.str "file.write") (.bool true) traceId with
  | mk returned client =>
      cases returned with
      | error e =>
          simp only [hcall] at hgate
          cases hgate
      | ok resp =>
          simp only [hcall] at hgate ⊢
          cases hgate
          have hstatus : isGranted (Py.get resp "status" (.str "failed")) = true := happroved
          have hgranted : resp.lookup "status" = some (.str "granted") := by
            unfold Py.get at hstatus
            cases hlookup : resp.lookup "status" with
            | none =>
                rw [hlookup] at hstatus
                exact absurd hstatus (by decide)
            | some v =>
                rw [hlookup] at hstatus
                cases v with
                | str s => rw [eq_of_beq hstatus]
                | _ => exact absurd hstatus Bool.false_ne_true
          obtain ⟨front, r, reply, hsent, -, hm, hop, hdevice, hout, hreply⟩ :=
            IpcClient.granted_of_halGate hcall hgranted
          exact ⟨front, r, reply, hsent, hm, hop, hdevice, hout, hreply⟩

/-- Connecting is no reply to a request of another kind. -/
theorem not_replied_connect {c : IpcConfig} {m : Method} (hm : m ≠ .heartbeat) (reply : m.Reply) :
    ¬ IpcClient.Replied W (IpcClient.new.connect M c W) m reply := by
  have hnew : ¬ IpcClient.Replied W .new m reply := by
    rintro ⟨front, r, hsent, -⟩
    have hlen := congrArg List.length hsent
    simp [IpcClient.new] at hlen
  rw [IpcClient.connect]
  split
  · exact hnew
  · obtain ⟨rs, hrs, -, hmethods, -⟩ :=
      IpcClient.establishFrom_cases (M := M) (c := c) (W := W) .new c.maxFailures.toNat
    exact fun h => hnew (IpcClient.replied_of_append hrs hmethods hm h)

/-- What the server granted, the wrapper approves. -/
theorem gate_of_granted {agent action target : String} {preScore : Float} {isAi : Bool}
    (h : Granted W (HalIpcWrapper.gate M c W traceId agent action target preScore isAi).2 action
      target) :
    ∃ fields, (HalIpcWrapper.gate M c W traceId agent action target preScore isAi).1 = .ok fields ∧
      (Py.get fields "approved" (.bool true)).truthy = true := by
  obtain ⟨front, r, reply, hsent, hmethod, -, -, hout, hstatus⟩ := h
  have hreplied : IpcClient.Replied W
      (HalIpcWrapper.gate M c W traceId agent action target preScore isAi).2 .halGate reply :=
    ⟨front, r, hsent, hmethod, hout⟩
  unfold HalIpcWrapper.gate at hreplied ⊢
  have hconnected : ¬ IpcClient.Replied W (IpcClient.new.connect M (wrapperConfig c) W) .halGate
      reply :=
    not_replied_connect (by decide) reply
  have hcall := IpcClient.halGate_of_replied (M := M) (c := wrapperConfig c) (.str action)
    (.str target) (.other false) (.str "file.write") (.bool true) traceId rfl hconnected
  cases hgate : (IpcClient.new.connect M (wrapperConfig c) W).halGate M (wrapperConfig c) W
      (.str action) (.str target) (.other false) (.str "file.write") (.bool true) traceId with
  | mk returned client =>
      rw [hgate] at hcall
      cases returned with
      | error e =>
          simp only [hgate] at hreplied
          cases hcall hreplied
      | ok resp =>
          simp only [hgate] at hreplied ⊢
          refine ⟨_, rfl, ?_⟩
          rw [Except.ok.inj (hcall hreplied)]
          show isGranted (.str (HalGateReply.status reply)) = true
          rw [hstatus]
          rfl

/-- The gate lets through exactly what the server granted. -/
theorem halGate_client_iff {action target : String} {preScore : Float} {isAi : Bool} :
    halGate (some (HalIpcWrapper.client M c W traceId)) action target preScore isAi = .ok () ↔
      Granted W (HalIpcWrapper.gate M c W traceId "file" action target preScore isAi).2 action
        target := by
  constructor
  · intro h
    cases hgate : (HalIpcWrapper.gate M c W traceId "file" action target preScore isAi).1 with
    | error e =>
        simp only [halGate, HalIpcWrapper.client, hgate] at h
        cases h
    | ok fields =>
        refine granted_of_gate hgate ?_
        by_contra hdenied
        simp only [halGate, HalIpcWrapper.client, hgate, if_neg hdenied] at h
        cases h
  · intro h
    obtain ⟨fields, hgate, happroved⟩ := gate_of_granted h
    simp only [halGate, HalIpcWrapper.client, hgate, if_pos happroved]

/-- A file that is made was granted. -/
theorem granted_of_createFile {tree : F.Tree} {path content : String} {overwrite : Bool}
    (hchanged : (createFile F w (some (HalIpcWrapper.client M c W traceId)) tree path content
      overwrite).2 ≠ tree) :
    ∃ vpath, w.validated path = .ok vpath ∧
      Granted W (HalIpcWrapper.gate M c W traceId "file" "create_file" vpath 0.3 false).2
        "create_file" vpath := by
  unfold createFile at hchanged
  cases hpath : w.validated path with
  | error e =>
      rw [hpath] at hchanged
      exact absurd rfl hchanged
  | ok vpath =>
      refine ⟨vpath, rfl, ?_⟩
      rw [hpath] at hchanged
      dsimp only at hchanged
      split at hchanged
      · exact absurd rfl hchanged
      · cases hgate : halGate (some (HalIpcWrapper.client M c W traceId)) "create_file" vpath 0.3
            false with
        | error e =>
            rw [hgate] at hchanged
            exact absurd rfl hchanged
        | ok _ => exact halGate_client_iff.mp hgate

/-- What `create_directory` comes to with the wrapper, where the directory is not there. -/
theorem createDirectory_absent {tree : F.Tree} {path vpath : String}
    (hpath : w.validated path = .ok vpath) (habsent : F.present tree vpath = false) :
    createDirectory F w (some (HalIpcWrapper.client M c W traceId)) tree path =
      (.error missingArgument, tree) := by
  simp only [createDirectory, hpath, habsent, HalIpcWrapper.client, if_neg Bool.false_ne_true]

/-- With the wrapper, no directory is ever made. -/
theorem createDirectory_unchanged (tree : F.Tree) (path : String) :
    (createDirectory F w (some (HalIpcWrapper.client M c W traceId)) tree path).2 = tree := by
  cases hpath : w.validated path with
  | error e => simp only [createDirectory, hpath]
  | ok vpath =>
      cases hpresent : F.present tree vpath with
      | false => rw [createDirectory_absent hpath hpresent]
      | true =>
          simp only [createDirectory, hpath, hpresent, if_true]
          split <;> rfl

/-- With HAL on, the task changes files only to create a file that the server granted. -/
theorem changed_of_granted {flag : String} (hflag : halEnabled flag = true) {tree : F.Tree}
    {action target : String}
    (hchanged : (fileTask M c W traceId F w flag tree action target).2.2 ≠ tree) :
    action = "create_file" ∧ ∃ vpath, w.validated target = .ok vpath ∧
      Granted W (HalIpcWrapper.gate M c W traceId "file" "create_file" vpath 0.3 false).2
        "create_file" vpath := by
  simp only [fileTask, runTask, hflag, if_true] at hchanged
  by_cases hdir : action = "create_dir"
  · rw [if_pos hdir] at hchanged
    exact absurd (createDirectory_unchanged tree target) hchanged
  · rw [if_neg hdir] at hchanged
    by_cases hfile : action = "create_file"
    · rw [if_pos hfile] at hchanged
      exact ⟨hfile, granted_of_createFile hchanged⟩
    · rw [if_neg hfile] at hchanged
      exact absurd rfl hchanged

/-- The code of the wrapper's token under the key `k`, an hour after the start of 1970. -/
def fileHmac : HmacSha256 where
  mac key message :=
    if key = Text.bytes "k" ∧ message = Grpc.Token.message "agent.file" "3600" then
      Sha256.bytes32 0x2f2a5dab728e017ac3c64341787b4c2839e76226e6bca798ba2a5cb4292d6615
    else []

/-- The server that grants everything, when the clocks started. -/
def grantingServer : World := { IpcClient.openServer with now := fun _ => 0, nowNs := fun _ => 0 }

def fileConfig : IpcConfig := ⟨"agent.file", Text.bytes "k", "5.0", 3, true⟩

theorem changed_of_granted_file : ∃ vpath, homeOnly.validated "~/notes.txt" = .ok vpath ∧
    Granted grantingServer (HalIpcWrapper.gate fileHmac fileConfig grantingServer "" "file"
      "create_file" vpath 0.3 false).2 "create_file" vpath := by
  have hmade : (fileTask fileHmac fileConfig grantingServer "" (flagged false) homeOnly "1" false
      "create_file" "~/notes.txt").2.2 = true := rfl
  have hchanged : (fileTask fileHmac fileConfig grantingServer "" (flagged false) homeOnly "1" false
      "create_file" "~/notes.txt").2.2 ≠ false := by
    rw [hmade]
    exact Bool.noConfusion
  exact (changed_of_granted (by decide) hchanged).2

/-! ## Success -/

/-- The operation succeeds, and leaves this tree. -/
def Succeeds {F : FileSystem} (done : Except Exc OperationResult × F.Tree) (tree : F.Tree) :
    Prop :=
  ∃ result, done = (.ok result, tree) ∧ result.success = true

@[simp] theorem not_succeeds_error {F : FileSystem} (e : Exc) (tree tree' : F.Tree) :
    ¬ Succeeds (.error e, tree) tree' := by
  rintro ⟨result, hdone, -⟩
  cases hdone

@[simp] theorem succeeds_ok_iff {F : FileSystem} (result : OperationResult)
    (tree tree' : F.Tree) :
    Succeeds (.ok result, tree) tree' ↔ tree = tree' ∧ result.success = true := by
  constructor
  · rintro ⟨result', hdone, hsuccess⟩
    cases hdone
    exact ⟨rfl, hsuccess⟩
  · rintro ⟨rfl, hsuccess⟩
    exact ⟨result, rfl, hsuccess⟩

theorem not_succeeds_result {F : FileSystem} (e : PathError) (target : String)
    (tree tree' : F.Tree) : ¬ Succeeds (e.result target, tree) tree' := by
  cases e <;> simp [PathError.result]

theorem createFile_succeeds_iff {hal : Option HalClient} {tree tree' : F.Tree}
    {path content : String} :
    Succeeds (createFile F w hal tree path content false) tree' ↔
      ∃ vpath, w.validated path = .ok vpath ∧ F.present tree vpath = false ∧
        halGate hal "create_file" vpath 0.3 false = .ok () ∧
        ∃ opened, F.mkdir tree (pathParent vpath) = (.ok (), opened) ∧
          F.writeText opened vpath content = (.ok (), tree') := by
  unfold createFile
  cases hpath : w.validated path with
  | error e => simp [not_succeeds_result]
  | ok vpath =>
      cases hpresent : F.present tree vpath with
      | true => simp [hpresent]
      | false =>
          cases hgate : halGate hal "create_file" vpath 0.3 false with
          | error e => simp [hpresent, hgate]
          | ok _ =>
              cases hmkdir : F.mkdir tree (pathParent vpath) with
              | mk made opened =>
                  cases made with
                  | error e => simp [hpresent, hgate, hmkdir]
                  | ok _ =>
                      cases hwrite : F.writeText opened vpath content with
                      | mk written left =>
                          cases written <;> simp [hpresent, hgate, hmkdir, hwrite]

theorem createDirectory_succeeds_iff {tree tree' : F.Tree} {path : String} :
    Succeeds (createDirectory F w (some (HalIpcWrapper.client M c W traceId)) tree path) tree' ↔
      tree = tree' ∧ ∃ vpath, w.validated path = .ok vpath ∧ F.present tree vpath = true ∧
        F.isDir tree vpath = true := by
  cases hpath : w.validated path with
  | error e => simp [createDirectory, hpath, not_succeeds_result]
  | ok vpath =>
      cases hpresent : F.present tree vpath with
      | false => simp [createDirectory_absent hpath hpresent, hpresent]
      | true =>
          cases hdir : F.isDir tree vpath <;>
            simp [createDirectory, hpath, hpresent, hdir]

/-- The exit code is zero exactly when the operation succeeds. -/
theorem exit_zero {flag : String} {tree tree' : F.Tree} {action target : String}
    {done : Except Exc OperationResult × F.Tree}
    (hdone : runTask M c W traceId F w flag tree action target =
      (done.1.map resultFields, done.2)) :
    (fileTask M c W traceId F w flag tree action target).2 = (0, tree') ↔
      Succeeds done tree' := by
  obtain ⟨returned, left⟩ := done
  rw [fileTask, hdone]
  cases returned with
  | error e =>
      refine iff_of_false (fun h => ?_) (not_succeeds_error e left tree')
      have hcode : (1 : Int) = 0 := congrArg Prod.fst h
      cases hcode
  | ok result =>
      show ((if result.success = true then 0 else 1 : Int), left) = (0, tree') ↔ _
      cases hsuccess : result.success <;> simp [hsuccess]

/-- With HAL on, the task succeeds in two cases: the directory was there already, or there was no
such file, the server granted this very request, and the file system wrote it. -/
theorem exit_zero_iff {flag : String} (hflag : halEnabled flag = true) (tree tree' : F.Tree)
    (action target : String) :
    (fileTask M c W traceId F w flag tree action target).2 = (0, tree') ↔
      (action = "create_dir" ∧ tree = tree' ∧ ∃ vpath, w.validated target = .ok vpath ∧
        F.present tree vpath = true ∧ F.isDir tree vpath = true) ∨
      (action = "create_file" ∧ ∃ vpath, w.validated target = .ok vpath ∧
        F.present tree vpath = false ∧
        Granted W (HalIpcWrapper.gate M c W traceId "file" "create_file" vpath 0.3 false).2
          "create_file" vpath ∧
        ∃ opened, F.mkdir tree (pathParent vpath) = (.ok (), opened) ∧
          F.writeText opened vpath "" = (.ok (), tree')) := by
  by_cases hdir : action = "create_dir"
  · have hfile : action ≠ "create_file" := hdir ▸ by decide
    have hdone : runTask M c W traceId F w flag tree action target =
        ((createDirectory F w (some (HalIpcWrapper.client M c W traceId)) tree target).1.map
          resultFields,
        (createDirectory F w (some (HalIpcWrapper.client M c W traceId)) tree target).2) := by
      simp only [runTask, hflag, if_true, if_pos hdir]
    rw [exit_zero hdone, createDirectory_succeeds_iff]
    simp [hdir]
  · by_cases hfile : action = "create_file"
    · have hdone : runTask M c W traceId F w flag tree action target =
          ((createFile F w (some (HalIpcWrapper.client M c W traceId)) tree target "" false).1.map
            resultFields,
          (createFile F w (some (HalIpcWrapper.client M c W traceId)) tree target "" false).2) := by
        simp only [runTask, hflag, if_true, if_neg hdir, if_pos hfile]
      rw [exit_zero hdone, createFile_succeeds_iff]
      simp only [halGate_client_iff]
      simp [hfile]
    · refine iff_of_false (fun h => ?_) (by simp [hdir, hfile])
      simp only [fileTask, runTask, if_neg hdir, if_neg hfile] at h
      have hcode : (1 : Int) = 0 := congrArg Prod.fst h
      cases hcode

theorem exit_zero_iff_file :
    (fileTask fileHmac fileConfig grantingServer "" (flagged false) homeOnly "1" false
        "create_file" "~/notes.txt").2 = (0, true) ∧
      (fileTask fileHmac fileConfig grantingServer "" (flagged false) homeOnly "1" false
        "create_dir" "~/notes").2 ≠ (0, true) := by
  have hgranted : Granted grantingServer (HalIpcWrapper.gate fileHmac fileConfig grantingServer ""
      "file" "create_file" "" 0.3 false).2 "create_file" "" :=
    halGate_client_iff.mp rfl
  have hon : halEnabled "1" = true := by decide
  refine ⟨(exit_zero_iff (F := flagged false) (w := homeOnly) hon false true "create_file"
    "~/notes.txt").mpr (Or.inr ⟨rfl, "", rfl, rfl, hgranted, true, rfl, rfl⟩), fun h => ?_⟩
  rcases (exit_zero_iff (F := flagged false) (w := homeOnly) hon false true "create_dir"
    "~/notes").mp h with
    ⟨-, hsame, -⟩ | ⟨hfile, -⟩
  · cases hsame
  · exact absurd hfile (by decide)

end Task

end Agents

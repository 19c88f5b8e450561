/-
# `Cognos.Orchestrator.Executor` — who does the work

`executor.rs`: three kinds of action go to the subprocess `file_task.py`; for any other one
the result says "skipped", and has no error.  A report of `submit_and_execute` goes by the
error alone, so a successful one is honest exactly when every action of the plan is one of
the three kinds (`honest_iff`).
-/
import Mathlib
import Cognos.Orchestrator.ExecutesPlan

namespace Orchestrator

variable {Time : Type}

/-! ## The subprocess -/

/-- JSON payload sent to `agents/file_task.py` on stdin. -/
structure FileTaskRequest where
  action : String
  target : String
  grantToken : String
  traceId : String

/-- JSON payload read from `agents/file_task.py` stdout. -/
structure FileTaskResponse where
  success : Bool
  message : String
  halStatus : Option String
  halRiskScore : Option Float

/-- How the subprocess ends. -/
inductive ChildEnd
  | notSpawned (e : String)
  | waitFailed (e : String)
  | exited (success : Bool) (status stderr stdout : String)

/-- What one call of the executor sees of the outside, `serde_json` included. -/
structure ExecutorWorld where
  script : String
  isFile : Bool
  toJson : FileTaskRequest → Except String String
  child : (payload : String) → ChildEnd
  fromStr : String → Except String FileTaskResponse
  number : Float → Json.Value

/-- A result without output. -/
def failure (e : String) : TaskResult := ⟨.null, some e⟩

def runFileTask (x : ExecutorWorld) (req : FileTaskRequest) : TaskResult :=
  if x.isFile = false then failure ("file_task.py not found at " ++ x.script)
  else
    match x.toJson req with
    | .error e => failure ("serialize file task request: " ++ e)
    | .ok payload =>
        match x.child payload with
        | .notSpawned e => failure ("spawn file_task.py: " ++ e)
        | .waitFailed e => failure ("file_task.py wait failed: " ++ e)
        | .exited false status stderr _ =>
            failure ("file_task.py exited " ++ status ++ ": " ++ stderr)
        | .exited true _ _ stdout =>
            match x.fromStr (Text.trim stdout) with
            | .error e => failure ("parse file_task output: " ++ e ++ "; stdout=" ++ stdout)
            | .ok resp =>
                if resp.success then
                  ⟨.obj [("hal_risk_score", (resp.halRiskScore.map x.number).getD .null),
                    ("hal_status", (resp.halStatus.map .str).getD .null),
                    ("message", .str resp.message)], none⟩
                else ⟨.obj [("message", .str resp.message)], some resp.message⟩

/-! ## The executor -/

/-- The actions there is an executor for. -/
def implemented (action : String) : Bool :=
  action = "create_dir" || action = "create_file" || Text.startsWith action "file."

/-- Execute a task node by delegating to the file agent. -/
def executeNode (x : ExecutorWorld) (grantToken traceId : String) (node : TaskNode) : TaskResult :=
  let action := (node.field "action").getD "execute"
  let target := (node.field "target").getD ""
  if implemented action then runFileTask x ⟨action, target, grantToken, traceId⟩
  else
    ⟨.obj [("action", .str action), ("reason", .str "no executor for action"),
      ("status", .str "skipped"), ("target", .str target)], none⟩

/-- The subprocess did what it was asked, and said so. -/
def CarriedOut (x : ExecutorWorld) (req : FileTaskRequest) : Prop :=
  x.isFile = true ∧ ∃ payload status stderr stdout resp, x.toJson req = .ok payload ∧
    x.child payload = .exited true status stderr stdout ∧
    x.fromStr (Text.trim stdout) = .ok resp ∧ resp.success = true

/-- The subprocess's result has no error exactly when it did. -/
theorem runFileTask_isNone_iff {x : ExecutorWorld} {req : FileTaskRequest} :
    (runFileTask x req).error.isNone = true ↔ CarriedOut x req := by
  constructor
  · intro h
    unfold runFileTask at h
    split at h
    · cases h
    · next hfile =>
      split at h
      · cases h
      · next payload hpayload =>
        split at h
        · cases h
        · cases h
        · cases h
        · next status stderr stdout hchild =>
          split at h
          · cases h
          · next resp hresp =>
            split at h
            · next hsuccess =>
                rw [Bool.not_eq_false] at hfile
                exact ⟨hfile, payload, status, stderr, stdout, resp, hpayload, hchild, hresp,
                  hsuccess⟩
            · cases h
  · rintro ⟨hfile, payload, status, stderr, stdout, resp, hpayload, hchild, hresp, hsuccess⟩
    simp only [runFileTask, hfile, hpayload, hchild, hresp, hsuccess, Bool.true_eq_false, if_false,
      if_true]
    rfl

/-! ## Reports -/

/-- The rounds of a run with this executor. -/
def ExecWorld.withExecutor (w : ExecWorld Time) (xs : Nat → ExecutorWorld) (traceId : String) :
    ExecWorld Time :=
  { w with round := fun k => { w.round k with execute := executeNode (xs k) "" traceId } }

/-- Every task of the report has an executor and was carried out by it. -/
def Honest (xs : Nat → ExecutorWorld) (traceId : String) (report : ExecutionReport) : Prop :=
  ∀ k task, report.tasks[k]? = some task → implemented task.action = true ∧
    CarriedOut (xs k) ⟨task.action, task.target, "", traceId⟩

theorem field_action {node : TaskNode} {sub : PlannedSubTask} (h : node.intent = intentValue sub) :
    node.field "action" = some sub.action := by
  rw [TaskNode.field, h]
  rfl

theorem field_target {node : TaskNode} {sub : PlannedSubTask} (h : node.intent = intentValue sub) :
    node.field "target" = some sub.target := by
  rw [TaskNode.field, h]
  rfl

theorem exists_of_forall₂ {α β : Type} {R : α → β → Prop} {as : List α} {bs : List β}
    (h : List.Forall₂ R as bs) {b : β} (hb : b ∈ bs) :
    ∃ (k : Nat) (a : α), as[k]? = some a ∧ R a b := by
  induction h with
  | nil => exact absurd hb List.not_mem_nil
  | cons hab _ ih =>
      rcases List.mem_cons.mp hb with rfl | hb
      · exact ⟨0, _, rfl, hab⟩
      · obtain ⟨k, a, ha, hrel⟩ := ih hb
        exact ⟨k + 1, a, ha, hrel⟩

/-- A successful report is honest exactly when there is an executor for every action of the
plan. -/
theorem honest_iff {rt : Runtime} {w : ExecWorld Time} {xs : Nat → ExecutorWorld}
    {utterance userId traceId : String} {plan : DecompositionPlan} {report : ExecutionReport}
    (hplan : resolveDecomposition (resetExecutionState rt) w.submit
      (Intent.new w.intentId userId utterance) = .ok plan)
    (hdistinct : ∀ i < plan.nodes.length, ∀ j < plan.nodes.length,
      minted w.submit i = minted w.submit j → i = j)
    (hreport : (submitAndExecute rt (w.withExecutor xs traceId) utterance userId traceId).1 =
      some (.ok report))
    (hsuccess : report.success = true) :
    Honest xs traceId report ↔ ∀ node ∈ plan.nodes, implemented node.subTask.action = true := by
  have hrun := runsPlan_of_distinct rt (w.withExecutor xs traceId) utterance userId traceId
    hplan hdistinct
  obtain ⟨hstatus, hsame, hall⟩ := hrun.success report hreport hsuccess
  constructor
  · intro hhonest node hnode
    obtain ⟨n, hn, rfl⟩ := List.getElem_of_mem hnode
    have hmem := (hall ⟨n, hn⟩).1
    rw [← hsame] at hmem
    obtain ⟨k, task, hk, i, hid, -, haction, -⟩ :=
      exists_of_forall₂ (hrun.records report hreport) hmem
    have hsameNode : n = i := hdistinct n hn i i.isLt hid
    subst hsameNode
    have himplemented := (hhonest k task hk).1
    rw [haction] at himplemented
    exact himplemented
  · intro himplemented k task hk
    obtain ⟨i, node, ⟨i', hid, -, haction, htarget⟩, hintent, hnone⟩ :=
      hrun.worked report hreport k task hk (hstatus task (List.mem_of_getElem? hk))
    have hsameNode : i = i' := Fin.ext (hdistinct i i.isLt i' i'.isLt hid)
    subst hsameNode
    have hdone := himplemented _ (List.get_mem plan.nodes i)
    rw [← haction] at hdone
    refine ⟨hdone, ?_⟩
    have hexecute : (executeNode (xs k) "" traceId node).error.isNone = true := hnone
    simp only [executeNode, field_action hintent, field_target hintent,
      Option.getD_some] at hexecute
    rw [← haction, ← htarget, if_pos hdone] at hexecute
    exact runFileTask_isNone_iff.mp hexecute

/-! "open notes" has no file action in its plan. -/

/-- There is no `file_task.py`. -/
def noFileTask : ExecutorWorld :=
  ⟨"agents/file_task.py", false, fun _ => .ok "", fun _ => .waitFailed "", fun _ => .error "",
    fun _ => .null⟩

theorem report_openNotes :
    ∃ report, (submitAndExecute Runtime.new (openNotesWorld.withExecutor (fun _ => noFileTask) "")
        "open notes" "ana" "").1 = some (.ok report) ∧ report.success = true ∧
      ∃ task ∈ report.tasks, implemented task.action = false := by
  have hrun : ((submitAndExecute Runtime.new (openNotesWorld.withExecutor (fun _ => noFileTask) "")
      "open notes" "ana" "").1.map fun result => match result with
        | .ok report => report.success && report.tasks.any fun t => !implemented t.action
        | .error _ => false) = some true := by
    decide +kernel
  obtain ⟨result, hresult, hboth⟩ := Option.map_eq_some_iff.mp hrun
  cases result with
  | error e => cases hboth
  | ok report =>
      rw [Bool.and_eq_true, List.any_eq_true] at hboth
      obtain ⟨hsuccess, task, htask, hnot⟩ := hboth
      rw [Bool.not_eq_true'] at hnot
      exact ⟨report, hresult, hsuccess, task, htask, hnot⟩

/-- The report says success, and nobody did anything. -/
theorem not_honest_openNotes :
    ∃ report, (submitAndExecute Runtime.new (openNotesWorld.withExecutor (fun _ => noFileTask) "")
        "open notes" "ana" "").1 = some (.ok report) ∧ report.success = true ∧
      ¬ Honest (fun _ => noFileTask) "" report := by
  obtain ⟨report, hresult, hsuccess, task, htask, hnot⟩ := report_openNotes
  refine ⟨report, hresult, hsuccess, fun hhonest => ?_⟩
  obtain ⟨k, hk, rfl⟩ := List.getElem_of_mem htask
  have himplemented := (hhonest k _ (List.getElem?_eq_getElem hk)).1
  rw [hnot] at himplemented
  cases himplemented

theorem honest_iff_openNotes :
    ∃ report, report.success = true ∧ (Honest (fun _ => noFileTask) "" report ↔
      ∀ node ∈ (decomposeLocally (Intent.new (Uuid.numbered 9) "ana" "open notes")).nodes,
        implemented node.subTask.action = true) := by
  obtain ⟨report, hresult, hsuccess, -⟩ := report_openNotes
  exact ⟨report, hsuccess, honest_iff rfl distinct_openNotes hresult hsuccess⟩

end Orchestrator

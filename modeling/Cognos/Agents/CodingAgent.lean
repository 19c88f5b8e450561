/-
# `Cognos.Agents.CodingAgent` — the gates before a source file is written

`coding_agent.py`: a plan, which HAL is asked about; for each file of the answer a security scan,
and HAL again if it fails; and then, for each file, HAL once more before it is written.  Each
client may be missing, may answer with any value, and may raise; what it does may depend on all
that has happened before.

    FailClosed                 no file is written but with a plan approved, a scan of this content
                               passed or its findings accepted, and this very write approved
    failClosed_of_answered     so it is in a run where every question was answered
    not_failClosed_unanswered  and not without HAL, without a scan, or on a word that is no answer

The prompts for the model are kept, since the clients read them; the message suggested for a
commit is left out.
-/
import Mathlib
import Cognos.Lib.PyValue
import Cognos.Lib.Text
import Cognos.Lib.Traced

namespace Agents.Coding

open Py (Value Fields Exc get typeError keyError attributeError slice sliceValue iterate join
  pathName pathParent)
open Traced (ask emit act raise each)

/-! ## What happens -/

structure GateCall where
  agent : String
  action : String
  target : Value
  preScore : Float
  isAiGenerated : Bool
  note : String

/-- What a run leaves behind: the questions, with the answers of the clients there are; the
files handed over for writing; the entries of the audit log. -/
inductive Event
  | gate (call : GateCall) (reply : Option (Except Exc Value))
  | scan (path content : String) (reply : Option (Except Exc Value))
  | write (path target content : String)
  | audit (action target outcome note : String)

/-- A method: what it gives, and what happens meanwhile. -/
abbrev Async (α : Type) := Traced Exc Event α

/-! ## Types -/

structure FileContent where
  path : String
  content : String

structure ScanResult where
  passed : Value
  findings : Value

structure FileChange where
  path : String
  changeType : Value
  diff : String
  newContent : String
  securityScan : ScanResult

structure Implementation where
  fileChanges : List FileChange
  explanation : Value
  testSuggestions : Value
  followUpTasks : Value

structure ApplyResult where
  appliedCount : Nat
  skippedCount : Nat

structure CodingContext where
  relevantFiles : List FileContent
  gitStatus : String
  recentErrors : List String

/-! ## The clients and the system -/

/-- The clients the agent is made with, as far as there are any. -/
structure CodingAgent where
  security : Option (List Event → String → String → Except Exc Value)
  hal : Option (List Event → GateCall → Except Exc Value)
  file : Option (List Event → String → String → Except Exc Unit)
  api : Option (List Event → String → String → Nat → Except Exc String)

/-- The system's calls, and what the agent takes from Python's libraries: `json.loads`,
`difflib.unified_diff` and `str`. -/
structure System where
  home : String
  mkdtemp : List Event → Except Exc String
  writeTemp : List Event → String → String → Except Exc Unit
  readOriginal : List Event → String → Except Exc String
  resolve : List Event → String → Except Exc String
  mkdir : List Event → String → Except Exc Unit
  writeText : List Event → String → String → Except Exc Unit
  loads : String → Except Exc Value
  unifiedDiff : String → String → String → String → String
  str : Value → String

section Agent

variable (a : CodingAgent) (w : System)

def audit (action target outcome note : String) : Async Unit :=
  emit (.audit action target outcome note)

/-! ## The gates -/

/-- `result.get("approved", False)`, tested. -/
def approvedOf : Except Exc Value → Except Exc Bool
  | .error e => .error e
  | .ok (.dict fields) => .ok (get fields "approved" (.bool false)).truthy
  | .ok _ => .error attributeError

/-- A gate of HAL, and what it says where there is no HAL. -/
def halGate (call : GateCall) (missing : Bool) : Async Bool :=
  match a.hal with
  | none => do
      emit (.gate call none)
      return missing
  | some hal => do
      let reply ← ask (fun past => hal past call) fun reply => .gate call (some reply)
      act fun _ => approvedOf reply

/-- HAL Confirm for plan approval. -/
def halGatePlan (plan task : String) : Async Bool :=
  halGate a ⟨"coding", "approve_plan", .str (slice task 80), 0.7, true, slice plan 200⟩ true

/-- HAL Block for each file write. -/
def halGateFileWrite (change : FileChange) : Async Bool :=
  halGate a ⟨"coding", "write_file", .str change.path, 0.85, true, slice change.diff 300⟩ true

/-- Present security findings and ask user whether to continue. -/
def halGateSecurityFinding (path : Value) (scan : ScanResult) : Async Bool := do
  let note ← act fun _ =>
    if a.hal.isSome then (sliceValue scan.findings 3).bind (join "; ") else .ok ""
  halGate a ⟨"coding", "proceed_despite_security_finding", path, 0.9, true, note⟩ false

/-- What the agent takes for the result of a scan. -/
def scanResult : Except Exc Value → ScanResult
  | .ok (.dict fields) => ⟨get fields "passed" (.bool true), get fields "findings" (.list [])⟩
  | _ => ⟨.bool true, .list []⟩

/-- Run the Security Agent's static analysis on generated code. -/
def securityScan (path content : String) : Async ScanResult :=
  match a.security with
  | none => do
      emit (.scan path content none)
      return ⟨.bool true, .list []⟩
  | some client => do
      let reply ← ask (fun past => client past path content) fun reply =>
        .scan path content (some reply)
      return scanResult reply

/-! ## The model -/

def formatContext (ctx : CodingContext) : String :=
  String.intercalate "\n\n"
    ((ctx.relevantFiles.take 3).map (fun fc =>
        "=== " ++ fc.path ++ " ===\n" ++ slice fc.content 1000) ++
      (if ctx.gitStatus ≠ "" then ["Git status:\n" ++ ctx.gitStatus] else []) ++
      (if ctx.recentErrors ≠ [] then
        ["Recent errors:\n" ++ String.intercalate "\n" (ctx.recentErrors.take 3)] else []))

def planSystem : String :=
  "You are a systems programmer. Given a coding task and context, " ++
    "produce a concise plan in plain English covering:\n" ++
    "1. Which files will be modified and how\n" ++
    "2. The approach and reasoning\n" ++
    "3. Any risks or dependencies\n" ++
    "Be specific. Do not write any code yet."

def implementSystem : String :=
  "You are a systems programmer implementing an approved plan. " ++
    "Return a JSON object with fields: file_changes (list of " ++
    "\x7bpath, change_type, new_content\x7d), explanation (str), " ++
    "test_suggestions (list of str), follow_up_tasks (list of str). " ++
    "Only output valid JSON, nothing else."

def generatePlan (task : String) (ctx : CodingContext) : Async String :=
  match a.api with
  | some complete => act fun past =>
      complete past planSystem ("Task: " ++ task ++ "\n\nContext:\n" ++ formatContext ctx) 500
  | none => pure ("[Plan] Implement: " ++ task ++ "\nFiles: " ++
      w.str (.list ((ctx.relevantFiles.take 3).map fun fc => .str fc.path)))

/-- The dictionary the model's text is read as. -/
def parsed (raw : String) : Except Exc Fields :=
  match w.loads raw with
  | .ok (.dict fields) => .ok fields
  | .ok v => .ok [("file_changes", .list []), ("explanation", .str (w.str v))]
  | .error (.other "JSONDecodeError" _) =>
      .ok [("file_changes", .list []), ("explanation", .str raw)]
  | .error e => .error e

def generateImplementation (task plan : String) (ctx : CodingContext) : Async Fields :=
  match a.api with
  | some complete => act fun past =>
      (complete past implementSystem ("Task: " ++ task ++ "\n\nApproved plan:\n" ++ plan ++
        "\n\nContext:\n" ++ formatContext ctx) 2000).bind (parsed w)
  | none => pure [("file_changes", .list []), ("explanation", .str ("Implement: " ++ task))]

/-! ## `implement` -/

/-- `Path(fc["path"] or "unnamed").name`. -/
def tempName (path : Value) : Except Exc String :=
  match path.orElse (.str "unnamed") with
  | .str s => .ok (pathName s)
  | _ => .error typeError

/-- Compute unified diff between current file and new content. -/
def computeDiff (path newContent : String) : Async String := act fun past =>
  match w.readOriginal past path with
  | .ok original =>
      .ok (w.unifiedDiff original newContent ("a/" ++ pathName path) ("b/" ++ pathName path))
  | .error (.os _ _) => .ok ("(could not compute diff for " ++ path ++ ")")
  | .error e => .error e

/-- The scan has passed, or its findings are accepted. -/
def mayProceed (path : Value) (scan : ScanResult) : Async Bool :=
  if scan.passed.truthy then pure true
  else do
    let _ ← act fun _ => join "\n" scan.findings
    halGateSecurityFinding a path scan

/-- The change that comes of an item of the model's answer, unless it is given up. -/
def reviewed (fields : Fields) (path : Value) (newContent : String) (scan : ScanResult) :
    Bool → Async (Option FileChange)
  | false => pure none
  | true =>
      match path with
      | .str path => do
          let diff ← computeDiff w path newContent
          return some ⟨path, get fields "change_type" (.str "modify"), diff, newContent, scan⟩
      | _ => raise typeError

/-- The item, as the dictionary it has to be, and its path. -/
def itemPath : Value → Except Exc (Fields × Value)
  | .dict fields =>
      match fields.lookup "path" with
      | some path => .ok (fields, path)
      | none => .error (keyError "path")
  | _ => .error typeError

/-- `fc.get("new_content", "")`, as the text it has to be. -/
def newContentOf (fields : Fields) : Except Exc String :=
  match get fields "new_content" (.str "") with
  | .str newContent => .ok newContent
  | _ => .error typeError

/-- One round of `implement`: the new content is written to a temporary file and scanned. -/
def review (item : Value) : Async (Option FileChange) := do
  let dir ← act w.mkdtemp
  let (fields, path) ← act fun _ => itemPath item
  let name ← act fun _ => tempName path
  let newContent ← act fun _ => newContentOf fields
  let tempPath := if name = "" then dir else dir ++ "/" ++ name
  act fun past => w.writeTemp past tempPath newContent
  let scan ← securityScan a tempPath newContent
  let proceed ← mayProceed a path scan
  reviewed w fields path newContent scan proceed

/-- Two-phase implementation.  `none` if the plan is denied. -/
def implement (task : String) (ctx : CodingContext) : Async (Option Implementation) := do
  let plan ← generatePlan a w task ctx
  let planApproved ← halGatePlan a plan task
  if planApproved then
    let rawImpl ← generateImplementation a w task plan ctx
    let items ← act fun _ => iterate (get rawImpl "file_changes" (.list []))
    let found ← each (review a w) items
    let fileChanges := found.reduceOption
    audit "implement" task "success" (toString fileChanges.length ++ " files")
    return some ⟨fileChanges, get rawImpl "explanation" (.str ""),
      get rawImpl "test_suggestions" (.list []), get rawImpl "follow_up_tasks" (.list [])⟩
  else
    audit "plan_denied" task "denied" ""
    return none

/-! ## `apply_changes` -/

/-- What becomes of a change.  One that is blocked is not counted. -/
inductive Outcome
  | applied
  | skipped
  | blocked
  deriving DecidableEq

/-- The change is handed to the file client, or written where its path leads. -/
def writeChange (change : FileChange) : Async Outcome :=
  match a.file with
  | some createFile => do
      emit (.write change.path change.path change.newContent)
      act fun past => createFile past change.path change.newContent
      return .applied
  | none => do
      let target ← act fun past => w.resolve past change.path
      if !Text.startsWith target w.home || decide ('\x00' ∈ change.path.toList) then
        return .blocked
      else do
        act fun past => w.mkdir past (pathParent target)
        emit (.write change.path target change.newContent)
        act fun past => w.writeText past target change.newContent
        return .applied

/-- One round of `apply_changes`. -/
def applyChange (change : FileChange) : Async Outcome := do
  let approved ← halGateFileWrite a change
  if approved then
    let outcome ← writeChange a w change
    if outcome = .applied then
      audit "apply_change" change.path "success"
        ("ai_generated=true type=" ++ w.str change.changeType)
      return .applied
    else return outcome
  else return .skipped

/-- Apply approved changes to source files. -/
def applyChanges (impl : Implementation) : Async ApplyResult := do
  let outcomes ← each (applyChange a w) impl.fileChanges
  return ⟨outcomes.count .applied, outcomes.count .skipped⟩

/-- `implement`, and then `apply_changes` of what it gives. -/
def run (task : String) (ctx : CodingContext) : Async (Option ApplyResult) := do
  match ← implement a w task ctx with
  | none => return none
  | some impl => do
      let result ← applyChanges a w impl
      return some result

end Agent

/-! ## Fail-closed -/

/-- The event is HAL's answer to a question about this action, and it says `approved: True`. -/
def Approves (action : String) (target : Value) : Event → Prop
  | .gate call (some (.ok (.dict fields))) =>
      call.action = action ∧ call.target = target ∧ fields.lookup "approved" = some (.bool true)
  | _ => False

/-- The event is a scan of this content. -/
def Scans (content : String) : Event → Prop
  | .scan _ scanned _ => scanned = content
  | _ => False

/-- The event is a scan of this content that was completed, and it says `passed: True`. -/
def Passes (content : String) : Event → Prop
  | .scan _ scanned (some (.ok (.dict fields))) =>
      scanned = content ∧ fields.lookup "passed" = some (.bool true)
  | _ => False

def PlanApproved (past : List Event) : Prop :=
  ∃ e ∈ past, ∃ target, Approves "approve_plan" target e

/-- A scan of the content has passed, or after a scan of it HAL has approved proceeding. -/
def Cleared (path content : String) (past : List Event) : Prop :=
  (∃ e ∈ past, Passes content e) ∨
    ∃ s e, [s, e] <:+: past ∧ Scans content s ∧
      Approves "proceed_despite_security_finding" (.str path) e

/-- All that has to be behind when a file is written. -/
structure Authorised (past : List Event) (path content : String) : Prop where
  plan : PlanApproved past
  cleared : Cleared path content past
  approved : ∃ e, past.getLast? = some e ∧ Approves "write_file" (.str path) e

/-- Every file that is written is authorised by what is before it. -/
def FailClosed (events : List Event) : Prop :=
  ∀ past path target content rest, events = past ++ .write path target content :: rest →
    Authorised past path content

/-! ## Answers -/

/-- The question is answered.  There is a client; HAL's `approved` and a scan's `passed`, where
they count as true, are `True`, and a scan comes back with a dictionary that has one. -/
def Answered : Event → Prop
  | .gate _ reply => ∃ r, reply = some r ∧ ∀ fields v, r = .ok (.dict fields) →
      fields.lookup "approved" = some v → v.truthy = true → v = .bool true
  | .scan _ _ reply => ∃ fields v, reply = some (.ok (.dict fields)) ∧
      fields.lookup "passed" = some v ∧ (v.truthy = true → v = .bool true)
  | _ => True

/-- What has to be behind an event. -/
def Grounded (past : List Event) : Event → Prop
  | .write path _ content => Authorised past path content
  | _ => True

/-- A step of the agent, in a run where all questions are answered. -/
abbrev Step {α : Type} (P : List Event → Prop) (m : Async α) (Q : α → List Event → Prop) : Prop :=
  Traced.Triple Answered Grounded P m Q

open Traced (Triple Lasting)

theorem lasting_planApproved : Lasting PlanApproved :=
  Traced.lasting_exists_mem _

theorem lasting_cleared (path content : String) : Lasting (Cleared path content) := by
  rintro past es (hpasses | ⟨s, e, hinfix, hs, he⟩)
  · exact Or.inl (Traced.lasting_exists_mem _ past es hpasses)
  · exact Or.inr ⟨s, e, hinfix.trans (List.infix_append [] past es), hs, he⟩

theorem approves_of_truthy {call : GateCall} {fields : Fields}
    (hanswered : Answered (.gate call (some (.ok (.dict fields)))))
    (htruthy : (get fields "approved" (.bool false)).truthy = true) :
    Approves call.action call.target (.gate call (some (.ok (.dict fields)))) := by
  obtain ⟨r, hr, hplain⟩ := hanswered
  refine ⟨rfl, rfl, ?_⟩
  unfold Py.get at htruthy
  cases hlookup : fields.lookup "approved" with
  | none =>
      rw [hlookup] at htruthy
      cases htruthy
  | some v =>
      rw [hlookup] at htruthy
      rw [hplain fields v (Option.some.inj hr).symm hlookup htruthy]

section Steps

variable {a : CodingAgent} {w : System} {P : List Event → Prop}

/-- A gate leaves one event, and lets through only with an approval. -/
theorem step_halGate (call : GateCall) (missing : Bool) :
    Step P (halGate a call missing) fun approved past => ∃ before e, past = before ++ [e] ∧
      P before ∧ (approved = true → Approves call.action call.target e) := by
  unfold halGate
  cases a.hal with
  | none =>
      refine Triple.bind (M := fun _ _ => False) (Triple.emit fun past _ hanswered => ?_)
        fun _ => Triple.pure fun _ h => h.elim
      obtain ⟨r, hr, -⟩ := hanswered
      cases hr
  | some hal =>
      refine Triple.bind (M := fun reply past => ∃ before, past = before ++
          [.gate call (some reply)] ∧ P before ∧ Answered (.gate call (some reply)))
        (Triple.ask fun past reply hP hanswered => ⟨trivial, past, rfl, hP, hanswered⟩)
        fun reply => Triple.act ?_
      rintro past approved ⟨before, rfl, hP, hanswered⟩ happroved
      refine ⟨before, _, rfl, hP, ?_⟩
      rintro rfl
      cases reply with
      | error e => cases happroved
      | ok v =>
          cases v with
          | dict fields => exact approves_of_truthy hanswered (Except.ok.inj happroved)
          | _ => cases happroved

/-- A scan leaves one event, and counts as passed only if it has passed. -/
theorem step_securityScan (path content : String) :
    Step P (securityScan a path content) fun scan past => ∃ before e, past = before ++ [e] ∧
      P before ∧ Scans content e ∧ (scan.passed.truthy = true → Passes content e) := by
  unfold securityScan
  cases a.security with
  | none =>
      refine Triple.bind (M := fun _ _ => False) (Triple.emit fun past _ hanswered => ?_)
        fun _ => Triple.pure fun _ h => h.elim
      obtain ⟨fields, v, hreply, -⟩ := hanswered
      cases hreply
  | some client =>
      refine Triple.bind (M := fun reply past => ∃ before, past = before ++
          [.scan path content (some reply)] ∧ P before ∧
          Answered (.scan path content (some reply)))
        (Triple.ask fun past reply hP hanswered => ⟨trivial, past, rfl, hP, hanswered⟩)
        fun reply => Triple.pure ?_
      rintro past ⟨before, rfl, hP, fields, v, hreply, hlookup, hplain⟩
      obtain rfl := Option.some.inj hreply
      refine ⟨before, _, rfl, hP, rfl, fun hpassed => ⟨rfl, ?_⟩⟩
      have hget : get fields "passed" (.bool true) = v := by
        rw [Py.get, hlookup]
        rfl
      have htruthy : (get fields "passed" (.bool true)).truthy = true := hpassed
      rw [hget] at htruthy
      rw [hlookup, hplain htruthy]

/-- What is let proceed has passed its scan, or its findings are accepted. -/
theorem step_mayProceed (path : Value) (scan : ScanResult) (content : String)
    (hP : Lasting P) :
    Step (fun past => ∃ before e, past = before ++ [e] ∧ P before ∧ Scans content e ∧
        (scan.passed.truthy = true → Passes content e))
      (mayProceed a path scan) fun proceed past => P past ∧
        (proceed = true → ∀ p, path = .str p → Cleared p content past) := by
  unfold mayProceed
  split_ifs with hpassed
  · refine Triple.pure ?_
    rintro past ⟨before, e, rfl, hbefore, -, hpasses⟩
    exact ⟨hP before _ hbefore, fun _ p _ =>
      Or.inl ⟨e, List.mem_append_right _ (List.mem_singleton_self e), hpasses hpassed⟩⟩
  · refine Triple.bind (M := fun _ past => ∃ before e, past = before ++ [e] ∧ P before ∧
      Scans content e) (Triple.act ?_) fun _ => ?_
    · rintro past _ ⟨before, e, hpast, hbefore, hscans, -⟩ _
      exact ⟨before, e, hpast, hbefore, hscans⟩
    · unfold halGateSecurityFinding
      refine Triple.bind (Triple.act fun past note hpast _ => hpast) fun note => ?_
      refine Triple.mono (step_halGate _ _) (fun _ h => h) ?_
      rintro proceed past ⟨_, e', rfl, ⟨before, e, rfl, hbefore, hscans⟩, happroves⟩
      refine ⟨hP _ _ (hP before _ hbefore), ?_⟩
      rintro rfl p rfl
      refine Or.inr ⟨e, e', ⟨before, [], ?_⟩, hscans, happroves rfl⟩
      rw [List.append_nil, List.append_assoc]
      rfl

/-- A change that comes of an item is cleared. -/
theorem step_review (item : Value) :
    Step PlanApproved (review a w item) fun found past => PlanApproved past ∧
      ∀ change ∈ found, Cleared change.path change.newContent past := by
  unfold review
  refine Triple.bind (Triple.act fun past dir hplan _ => hplan) fun dir => ?_
  refine Triple.bind (Triple.act fun past parts hplan _ => hplan) fun parts => ?_
  obtain ⟨fields, path⟩ := parts
  refine Triple.bind (Triple.act fun past name hplan _ => hplan) fun name => ?_
  refine Triple.bind (Triple.act fun past newContent hplan _ => hplan) fun newContent => ?_
  refine Triple.bind (Triple.act fun past _ hplan _ => hplan) fun _ => ?_
  refine Triple.bind (step_securityScan _ newContent) fun scan => ?_
  refine Triple.bind (step_mayProceed path scan newContent lasting_planApproved) fun proceed => ?_
  cases proceed with
  | false => exact Triple.pure fun past h => ⟨h.1, fun change hchange => by cases hchange⟩
  | true =>
      cases path with
      | str path =>
          refine Triple.bind (Triple.act fun past diff h _ => h) fun diff => Triple.pure ?_
          rintro past ⟨hplan, hcleared⟩
          refine ⟨hplan, fun change hchange => ?_⟩
          obtain rfl := Option.some.inj hchange
          exact hcleared rfl path rfl
      | _ => exact Triple.raise

/-- What is needed before the changes are applied. -/
def Ready (fileChanges : List FileChange) (past : List Event) : Prop :=
  PlanApproved past ∧ ∀ change ∈ fileChanges, Cleared change.path change.newContent past

theorem lasting_ready (fileChanges : List FileChange) : Lasting (Ready fileChanges) :=
  fun past es h => ⟨lasting_planApproved past es h.1, fun change hchange =>
    lasting_cleared _ _ past es (h.2 change hchange)⟩

theorem step_audit (action target outcome note : String) (hP : Lasting P) :
    Step P (audit action target outcome note) fun _ => P :=
  Triple.emit fun past h _ => ⟨trivial, hP past _ h⟩

/-- Where the plan is not denied, it is approved, and all changes are cleared. -/
theorem step_implement (task : String) (ctx : CodingContext) :
    Step (fun _ => True) (implement a w task ctx) fun impl past =>
      ∀ i ∈ impl, Ready i.fileChanges past := by
  unfold implement
  refine Triple.bind (M := fun _ _ => True) ?_ fun plan => ?_
  · unfold generatePlan
    cases a.api with
    | none => exact Triple.pure fun _ _ => trivial
    | some complete => exact Triple.act fun _ _ _ _ => trivial
  refine Triple.bind (step_halGate _ _) fun planApproved => ?_
  split_ifs with happroved
  · subst happroved
    refine Triple.mono (P := PlanApproved) (Q := fun impl past => ∀ i ∈ impl,
      Ready i.fileChanges past) ?_ ?_ fun _ _ h => h
    · refine Triple.bind (M := fun _ => PlanApproved) ?_ fun rawImpl => ?_
      · unfold generateImplementation
        cases a.api with
        | none => exact Triple.pure fun _ h => h
        | some complete => exact Triple.act fun _ _ h _ => h
      refine Triple.bind (Triple.act fun past items hplan _ => hplan) fun items => ?_
      have hlasting : ∀ found : Option FileChange, Lasting fun past =>
          ∀ change ∈ found, Cleared change.path change.newContent past := by
        intro found past es h change hchange
        exact lasting_cleared change.path change.newContent past es (h change hchange)
      refine Triple.bind (Triple.each hlasting fun item _ => step_review item) fun found => ?_
      refine Triple.bind (M := fun _ => Ready found.reduceOption) ?_ fun _ => Triple.pure ?_
      · refine Triple.mono (step_audit _ _ _ _ (lasting_ready _)) ?_ fun _ _ h => h
        rintro past ⟨hplan, hcleared⟩
        refine ⟨hplan, fun change hchange => ?_⟩
        exact hcleared (some change) (List.reduceOption_mem_iff.mp hchange) change rfl
      · intro past hready i hi
        obtain rfl := Option.some.inj hi
        exact hready
    · rintro past ⟨before, e, rfl, -, happroves⟩
      exact ⟨e, List.mem_append_right _ (List.mem_singleton_self e), _, happroves rfl⟩
  · refine Triple.bind (M := fun _ _ => True) (Triple.emit fun _ _ _ => ⟨trivial, trivial⟩)
      fun _ => Triple.pure ?_
    intro past _ i hi
    cases hi

/-- A change that its gate let through is written with all that it needs behind. -/
theorem step_writeChange {fileChanges : List FileChange} {change : FileChange}
    (hchange : change ∈ fileChanges) :
    Step (fun past => Ready fileChanges past ∧ ∃ e, past.getLast? = some e ∧
        Approves "write_file" (.str change.path) e)
      (writeChange a w change) fun _ => Ready fileChanges := by
  have hwrite : ∀ target, Step (fun past => Ready fileChanges past ∧ ∃ e,
      past.getLast? = some e ∧ Approves "write_file" (.str change.path) e)
      (emit (.write change.path target change.newContent) : Async Unit)
      fun _ => Ready fileChanges := by
    intro target
    refine Triple.emit fun past hpast _ => ⟨?_, lasting_ready _ past _ hpast.1⟩
    exact ⟨hpast.1.1, hpast.1.2 change hchange, hpast.2⟩
  unfold writeChange
  cases a.file with
  | some createFile =>
      refine Triple.bind (hwrite _) fun _ => ?_
      exact Triple.bind (Triple.act fun _ _ h _ => h) fun _ => Triple.pure fun _ h => h
  | none =>
      refine Triple.bind (Triple.act fun _ _ h _ => h) fun target => ?_
      split_ifs
      · exact Triple.pure fun _ h => h.1
      · refine Triple.bind (Triple.act fun _ _ h _ => h) fun _ => ?_
        refine Triple.bind (hwrite target) fun _ => ?_
        exact Triple.bind (Triple.act fun _ _ h _ => h) fun _ => Triple.pure fun _ h => h

theorem step_applyChange {fileChanges : List FileChange} {change : FileChange}
    (hchange : change ∈ fileChanges) :
    Step (Ready fileChanges) (applyChange a w change) fun _ => Ready fileChanges := by
  unfold applyChange
  refine Triple.bind (step_halGate _ _) fun approved => ?_
  split_ifs with happroved
  · subst happroved
    refine Triple.bind (M := fun _ => Ready fileChanges)
      (Triple.mono (step_writeChange hchange) ?_ fun _ _ h => h) fun outcome => ?_
    · rintro past ⟨before, e, rfl, hready, happroves⟩
      exact ⟨lasting_ready _ before _ hready, e, List.getLast?_concat, happroves rfl⟩
    · split_ifs
      · exact Triple.bind (step_audit _ _ _ _ (lasting_ready _)) fun _ =>
          Triple.pure fun _ h => h
      · exact Triple.pure fun _ h => h
  · refine Triple.pure ?_
    rintro past ⟨before, e, rfl, hready, -⟩
    exact lasting_ready _ before _ hready

theorem step_run (task : String) (ctx : CodingContext) :
    Step (fun _ => True) (run a w task ctx) fun _ _ => True := by
  unfold run
  refine Triple.bind (step_implement task ctx) fun impl => ?_
  cases impl with
  | none => exact Triple.pure fun _ _ => trivial
  | some impl =>
      refine Triple.bind (M := fun _ _ => True) ?_ fun _ => Triple.pure fun _ _ => trivial
      unfold applyChanges
      refine Triple.bind (M := fun _ _ => True) ?_ fun _ => Triple.pure fun _ _ => trivial
      exact Triple.mono (Triple.each (L := fun _ _ => True) (fun _ _ _ _ => trivial)
        fun change hchange => Triple.mono (step_applyChange hchange) (fun _ h => h)
          fun _ _ h => ⟨h, trivial⟩)
        (fun past h => h impl rfl) fun _ _ _ => trivial

end Steps

/-- In a run where every question is answered, no file is written that is not authorised. -/
theorem failClosed_of_answered (a : CodingAgent) (w : System) (task : String)
    (ctx : CodingContext) (h : ∀ e ∈ (run a w task ctx).events, Answered e) :
    FailClosed (run a w task ctx).events := by
  intro past path target content rest hevents
  obtain ⟨hjust, -⟩ := step_run (a := a) (w := w) task ctx [] trivial h
  exact Traced.justified_iff.mp hjust past _ rest hevents

/-! ## One file -/

/-- Clients that always give the same answer, and a model. -/
def replying (hal security : Option (Except Exc Value)) : CodingAgent where
  security := security.map fun reply _ _ _ => reply
  hal := hal.map fun reply _ _ => reply
  file := none
  api := some fun _ _ _ _ => .ok ""

def oneFile : Value := .dict [("path", .str "/home/u/main.py"), ("new_content", .str "pass")]

/-- A system where all goes well, and the model's answer is one file. -/
def oneFileSystem : System where
  home := "/home/u"
  mkdtemp _ := .ok "/tmp/x"
  writeTemp _ _ _ := .ok ()
  readOriginal _ _ := .ok ""
  resolve _ path := .ok path
  mkdir _ _ := .ok ()
  writeText _ _ _ := .ok ()
  loads _ := .ok (.dict [("file_changes", .list [oneFile])])
  unifiedDiff _ _ _ _ := ""
  str _ := ""

def emptyContext : CodingContext := ⟨[], "", []⟩

def approval : Except Exc Value := .ok (.dict [("approved", .bool true)])

def passed : Except Exc Value := .ok (.dict [("passed", .bool true)])

/-- Where HAL approves and the scan passes, the file is written as it should be. -/
theorem failClosed_oneFile :
    FailClosed (run (replying (some approval) (some passed)) oneFileSystem ""
      emptyContext).events := by
  refine failClosed_of_answered _ _ _ _ fun e he => ?_
  have hgate : ∀ call, Answered (.gate call (some approval)) := by
    intro call
    refine ⟨_, rfl, fun fields v hr hlookup _ => ?_⟩
    obtain rfl := Value.dict.inj (Except.ok.inj hr)
    exact (Option.some.inj hlookup).symm
  rcases he with _ | ⟨_, _ | ⟨_, _ | ⟨_, _ | ⟨_, _ | ⟨_, _ | ⟨_, he⟩⟩⟩⟩⟩⟩
  · exact hgate _
  · exact ⟨_, _, rfl, rfl, fun _ => rfl⟩
  · trivial
  · exact hgate _
  · trivial
  · trivial
  · cases he

/-- What happens where the gates let through and the scan counts as passed. -/
def through (hal security : Option (Except Exc Value)) : List Event :=
  [.gate ⟨"coding", "approve_plan", .str "", 0.7, true, ""⟩ hal,
    .scan "/tmp/x/main.py" "pass" security, .audit "implement" "" "success" "1 files",
    .gate ⟨"coding", "write_file", .str "/home/u/main.py", 0.85, true, ""⟩ hal,
    .write "/home/u/main.py" "/home/u/main.py" "pass",
    .audit "apply_change" "/home/u/main.py" "success" "ai_generated=true type="]

theorem action_of_approves {action : String} {target : Value} {call : GateCall}
    {reply : Option (Except Exc Value)} (h : Approves action target (.gate call reply)) :
    call.action = action := by
  unfold Approves at h
  split at h
  · cases ‹Event.gate call reply = _›
    exact h.1
  · exact h.elim

theorem not_failClosed_through {hal security : Option (Except Exc Value)}
    (h : (∀ call, ¬ Approves "write_file" (.str "/home/u/main.py") (.gate call hal)) ∨
      ¬ Passes "pass" (.scan "/tmp/x/main.py" "pass" security)) :
    ¬ FailClosed (through hal security) := by
  intro hclosed
  obtain ⟨-, hcleared, e, he, happroves⟩ :=
    hclosed ((through hal security).take 4) _ _ _ _ rfl
  obtain rfl := Option.some.inj he
  have hscan := h.resolve_left fun hgate => hgate _ happroves
  rcases hcleared with ⟨e, he, hpasses⟩ | ⟨s, e, hinfix, -, hproceed⟩
  · rcases he with _ | ⟨_, _ | ⟨_, _ | ⟨_, _ | ⟨_, he⟩⟩⟩⟩
    · exact hpasses
    · exact hscan hpasses
    · exact hpasses
    · exact hpasses
    · cases he
  · have he := hinfix.subset (List.mem_cons_of_mem s (List.mem_singleton_self e))
    rcases he with _ | ⟨_, _ | ⟨_, _ | ⟨_, _ | ⟨_, he⟩⟩⟩⟩
    · exact absurd (action_of_approves hproceed) (by decide)
    · exact hproceed
    · exact hproceed
    · exact absurd (action_of_approves hproceed) (by decide)
    · cases he

/-- What happens under these answers of HAL and of the security client. -/
def happens (hal security : Option (Except Exc Value)) : List Event :=
  (run (replying hal security) oneFileSystem "" emptyContext).events

theorem not_failClosed_happens {hal security : Option (Except Exc Value)}
    (hrun : happens hal security = through hal security)
    (h : (∀ call, ¬ Approves "write_file" (.str "/home/u/main.py") (.gate call hal)) ∨
      ¬ Passes "pass" (.scan "/tmp/x/main.py" "pass" security)) :
    ¬ FailClosed (happens hal security) := by
  rw [hrun]
  exact not_failClosed_through h

/-- The file is written without HAL, on a HAL's word that is not `True`, without a security
client, after a scan that raised, after one that does not say whether it has passed, and on a
scan's word that is not `True`. -/
theorem not_failClosed_unanswered :
    ¬ FailClosed (happens none (some passed)) ∧
      ¬ FailClosed (happens (some (.ok (.dict [("approved", .str "no")]))) (some passed)) ∧
      ¬ FailClosed (happens (some approval) none) ∧
      ¬ FailClosed (happens (some approval) (some (.error (.other "TimeoutError" "")))) ∧
      ¬ FailClosed (happens (some approval) (some (.ok (.dict [("status", .str "queued")])))) ∧
      ¬ FailClosed (happens (some approval) (some (.ok (.dict [("passed", .str "no")])))) := by
  refine ⟨?_, ?_, ?_, ?_, ?_, ?_⟩
  · exact not_failClosed_happens rfl (Or.inl fun _ h => h)
  · exact not_failClosed_happens rfl (Or.inl fun _ h => nomatch h.2.2)
  · exact not_failClosed_happens rfl (Or.inr fun h => h)
  · exact not_failClosed_happens rfl (Or.inr fun h => h)
  · exact not_failClosed_happens rfl (Or.inr fun h => nomatch h.2)
  · exact not_failClosed_happens rfl (Or.inr fun h => nomatch h.2)

end Agents.Coding

/-
# `Cognos.Orchestrator.GateCoverage` — which actions keep their gate

The gate looks at a node's capability, and the capability comes from a cascade of text
rules over the action's name.  Some rules lead to capabilities that are not gated; an
action that has a side effect by its own name and is caught by one of them `Escapes`.
`covered_iff` says that these are the only ones: for every other action, the mapping
keeps the side effect and a dispatch of its node calls HAL.
-/
import Cognos.Orchestrator.Runtime

namespace Orchestrator

open Ipc (IntentActionGraph HalGateRequest CognosClient)

/-! ## The rules -/

section

variable (lower : String)

def deletes : Bool := Text.contains lower "delete"

def moves : Bool := Text.contains lower "move" || Text.contains lower "rename"

def searches : Bool := Text.contains lower "search" || Text.contains lower "find"

def isFileAction : Bool :=
  Text.startsWith lower "file." || lower == "open_files" || lower == "create_dir" ||
    lower == "create_file" || lower == "execute_open"

def validates : Bool := Text.contains lower "validate" || Text.contains lower "test"

def plans : Bool := Text.contains lower "plan"

def codes : Bool :=
  Text.startsWith lower "coding." || Text.contains lower "implement" ||
    Text.contains lower "debug" || Text.contains lower "refactor" || lower == "execute_code"

def packages : Bool := Text.contains lower "install" || Text.startsWith lower "pkg."

def reviews : Bool := Text.contains lower "security_check" || Text.contains lower "review"

def analyzes : Bool := Text.contains lower "analyze" || Text.contains lower "audit"

def readsSecurity : Bool := Text.startsWith lower "security." || lower == "gather_state"

def readsMemory : Bool :=
  Text.startsWith lower "memory." || lower == "resolve_target" || lower == "memory_search"

def isSystem : Bool := Text.startsWith lower "system."

def disambiguates : Bool := Text.startsWith lower "intent." || lower == "disambiguate"

/-- The rules a name without a side effect is meant for. -/
def inspects : Bool :=
  reviews lower || analyzes lower || readsSecurity lower || readsMemory lower ||
    isSystem lower || disambiguates lower

/-- The first rule that catches the name is one of the ungated ones: searches, file actions that
do not create, checks, plans and inspections. -/
def caughtAsRead : Bool :=
  if deletes lower || moves lower then false
  else if searches lower then true
  else if isFileAction lower then !Text.contains lower "create"
  else if validates lower || plans lower then true
  else if codes lower || packages lower then false
  else inspects lower

end

/-- The action has a side effect by its name, and its name is caught by an ungated rule. -/
def Escapes (action : String) : Prop :=
  isSideEffecting action = true ∧ caughtAsRead (Text.toLowercase action) = true

/-! ## The cascade as one test -/

/-- A name the cascade spells out adds nothing to a pattern it contains. -/
theorem contains_or_eq {lower pat lit : String} (h : Text.contains lit pat = true) :
    (Text.contains lower pat || lower == lit) = Text.contains lower pat := by
  by_cases he : lower = lit
  · subst he
    simp [h]
  · simp [he]

theorem contains_or_contains {lower pat pat' : String} (h : Text.contains pat' pat = true) :
    (Text.contains lower pat || Text.contains lower pat') = Text.contains lower pat := by
  cases hc : Text.contains lower pat' with
  | false => simp
  | true => simp [Text.contains_trans hc h]

/-- The cascade without the names and patterns that change nothing. -/
theorem capabilityOf_eq (lower : String) :
    capabilityOf lower =
      if deletes lower then "file.write"
      else if moves lower then "file.write"
      else if searches lower then "file.read"
      else if isFileAction lower then
        if Text.contains lower "create" then "file.write" else "file.read"
      else if validates lower then "coding.validate"
      else if plans lower then "coding.plan"
      else if codes lower then "coding.execute"
      else if packages lower then "pkg.execute"
      else if reviews lower then "security.review"
      else if analyzes lower then "security.analyze"
      else if readsSecurity lower then "security.read"
      else if readsMemory lower then "memory.read"
      else if isSystem lower then "system.config"
      else if disambiguates lower then "intent.disambiguate"
      else "general.execute" := by
  have hdelete : (Text.contains lower "delete" || lower == "file.delete" ||
      Text.contains lower "delete_files" || lower == "delete_path") = deletes lower := by
    rw [contains_or_eq (by decide), contains_or_contains (by decide), contains_or_eq (by decide)]
    rfl
  have hmove : (Text.contains lower "move" || Text.contains lower "rename" ||
      lower == "file.move") = moves lower := by
    rw [Bool.or_right_comm, contains_or_eq (by decide)]
    rfl
  have hsearch : (Text.contains lower "search" || Text.contains lower "find" ||
      lower == "file.search") = searches lower := by
    rw [Bool.or_right_comm, contains_or_eq (by decide)]
    rfl
  have hcreate : (lower == "create_dir" || lower == "create_file" || Text.contains lower "create")
      = Text.contains lower "create" := by
    rw [Bool.or_comm, ← Bool.or_assoc, contains_or_eq (by decide), contains_or_eq (by decide)]
  have hvalidate : (Text.contains lower "validate" || Text.contains lower "test" ||
      lower == "coding.validate") = validates lower := by
    rw [Bool.or_right_comm, contains_or_eq (by decide)]
    rfl
  have hplan : (Text.contains lower "plan" || lower == "coding.plan" || lower == "create_plan")
      = plans lower := by
    rw [contains_or_eq (by decide), contains_or_eq (by decide)]
    rfl
  have hinstall : (Text.contains lower "install" || lower == "install_package" ||
      Text.startsWith lower "pkg.") = packages lower := by
    rw [contains_or_eq (by decide)]
    rfl
  unfold capabilityOf
  rw [hdelete, hmove, hsearch, hcreate, hvalidate, hplan, hinstall]
  rfl

theorem isSideEffecting_capabilities :
    isSideEffecting "file.write" = true ∧ isSideEffecting "coding.execute" = true ∧
    isSideEffecting "pkg.execute" = true ∧ isSideEffecting "general.execute" = true ∧
    ∀ c ∈ ["file.read", "coding.validate", "coding.plan", "security.review", "security.analyze",
      "security.read", "memory.read", "system.config", "intent.disambiguate"],
      isSideEffecting c = false := by
  decide +kernel

/-- The gate sees an action as read-only exactly when an ungated rule catches it. -/
theorem isSideEffecting_capabilityOf (lower : String) :
    isSideEffecting (capabilityOf lower) = !caughtAsRead lower := by
  obtain ⟨write, code, pkg, general, free⟩ := isSideEffecting_capabilities
  rw [capabilityOf_eq]
  unfold caughtAsRead inspects
  -- one rule after the other: where it applies both sides are known
  cases deletes lower
  case true => exact write
  cases moves lower
  case true => exact write
  cases searches lower
  case true => exact free "file.read" (by simp)
  cases isFileAction lower
  case true =>
    cases Text.contains lower "create" with
    | true => exact write
    | false => exact free "file.read" (by simp)
  cases validates lower
  case true => exact free "coding.validate" (by simp)
  cases plans lower
  case true => exact free "coding.plan" (by simp)
  cases codes lower
  case true => exact code
  cases packages lower
  case true => exact pkg
  cases reviews lower
  case true => exact free "security.review" (by simp)
  cases analyzes lower
  case true => exact free "security.analyze" (by simp)
  cases readsSecurity lower
  case true => exact free "security.read" (by simp)
  cases readsMemory lower
  case true => exact free "memory.read" (by simp)
  cases isSystem lower
  case true => exact free "system.config" (by simp)
  cases disambiguates lower with
  | true => exact free "intent.disambiguate" (by simp)
  | false => exact general

/-! ## A dispatch of a planned node -/

/-- With a gate attached, a side-effecting node's dispatch asks HAL about it. -/
theorem dispatchNode_sent {Time : Type} {rt : Runtime} {w : GateWorld Time} {id : TaskId}
    {traceId : String} {node : TaskNode} {client : CognosClient}
    (hgate : rt.halGate = some client) (hnode : rt.graph.get id = some node)
    (hse : isSideEffecting node.capability = true) :
    (dispatchNode rt w id traceId).sent = some (gateRequest node.sideEffect traceId) := by
  have hse' : ¬¬ isSideEffecting node.sideEffect.capability = true := not_not.mpr hse
  unfold dispatchNode
  rw [hnode]
  simp only [if_neg hse', hgate]
  split
  next => rfl
  next => rfl
  next =>
    unfold awaitApproval
    simp only
    split
    next => split <;> rfl
    next => rfl
    next => rfl
    next => rfl
  next => rfl

/-- A read-only node's dispatch asks nobody. -/
theorem dispatchNode_not_sent {Time : Type} {rt : Runtime} {w : GateWorld Time} {id : TaskId}
    {traceId : String} {node : TaskNode} (hnode : rt.graph.get id = some node)
    (hro : isSideEffecting node.capability = false) :
    (dispatchNode rt w id traceId).sent = none := by
  have hro' : ¬ isSideEffecting node.sideEffect.capability = true := by
    simpa [TaskNode.sideEffect] using hro
  unfold dispatchNode
  rw [hnode]
  simp only [if_pos hro']

/-- The capability a planned node is gated on is the one of its sub-task. -/
theorem capability_intentValue {node : TaskNode} {sub : PlannedSubTask}
    (h : node.intent = intentValue sub) : node.capability = sub.capability := by
  unfold TaskNode.capability TaskNode.field
  rw [h]
  rfl

/-- If the action has a side effect by its name, so has its capability, and every dispatch of a
node planned for it hands HAL a request. -/
def Covered (action : String) : Prop :=
  isSideEffecting action = true →
    isSideEffecting (actionToCapability action) = true ∧
    ∀ (graph : IntentActionGraph) (plan : DecompositionPlan),
      protoGraphToPlan graph = .ok plan → ∀ p ∈ plan.nodes, p.subTask.action = action →
      ∀ {Time : Type} (rt : Runtime) (w : GateWorld Time) (id : TaskId) (traceId : String)
        (node : TaskNode) (client : CognosClient),
        rt.halGate = some client → rt.graph.get id = some node →
        node.intent = intentValue p.subTask →
        (dispatchNode rt w id traceId).sent = some (gateRequest node.sideEffect traceId)

/-- An action is covered unless an ungated rule of the cascade catches its name. -/
theorem covered_iff (action : String) : Covered action ↔ ¬ Escapes action := by
  have hcap : isSideEffecting (actionToCapability action)
      = !caughtAsRead (Text.toLowercase action) := isSideEffecting_capabilityOf _
  constructor
  · rintro h ⟨hse, hcaught⟩
    have := (h hse).1
    rw [hcap, hcaught] at this
    cases this
  · intro h hse
    have hkept : isSideEffecting (actionToCapability action) = true := by
      rw [hcap]
      cases hc : caughtAsRead (Text.toLowercase action) with
      | true => exact absurd ⟨hse, hc⟩ h
      | false => rfl
    refine ⟨hkept, ?_⟩
    intro graph plan hplan p hp hpa Time rt w id traceId node client hgate hnode hintent
    have hnodecap : isSideEffecting node.capability = true := by
      rw [capability_intentValue hintent, planned_capability hplan hp, hpa]
      exact hkept
    exact dispatchNode_sent hgate hnode hnodecap

/-- Writing a file is a side effect, and its node asks for `file.read`. -/
theorem not_covered_file_write : ¬ ∀ action, Covered action := by
  intro h
  have hcaught : caughtAsRead (Text.toLowercase "file.write") = true := by decide +kernel
  have hkept := isSideEffecting_capabilityOf (Text.toLowercase "file.write")
  have hgated := (h "file.write" isSideEffecting_capabilities.1).1
  rw [hcaught] at hkept
  exact Bool.false_ne_true (hkept.symm.trans hgated)

end Orchestrator

/-
# `Cognos.Orchestrator.Intent` — intents and the local classifier

The intent part of `runtime.rs`: what a user submits, the keyword classifier, and the
sub-tasks of each class.  The classifier is the fallback for an intent engine that
cannot be reached.
-/
import Cognos.Lib.Uuid

namespace Orchestrator

/-- Identifier of an intent. -/
structure IntentId where
  id : Uuid
  deriving DecidableEq

inductive IntentPriority
  | background | normal | high | critical
  deriving DecidableEq, Repr

/-- A high-level user intent submitted to the orchestrator. -/
structure Intent where
  id : IntentId
  userId : String
  text : String
  priority : IntentPriority

/-- `Intent::new`, the fresh id a parameter. -/
def Intent.new (fresh : Uuid) (userId text : String) : Intent := ⟨⟨fresh⟩, userId, text, .normal⟩

/-- The scheduler priority of an intent. -/
def IntentPriority.value : IntentPriority → Nat
  | .background => 0
  | .normal => 50
  | .high => 75
  | .critical => 100

/-! ## Classification -/

/-- Keyword to action, the first keyword found wins. -/
def classifyRules : List (String × String) :=
  [("open", "file.open"),
    ("find", "file.find"),
    ("search", "file.search"),
    ("move", "file.move"),
    ("rename", "file.rename"),
    ("delete", "file.delete"),
    ("install", "pkg.install"),
    ("uninstall", "pkg.uninstall"),
    ("update", "pkg.update"),
    ("config", "system.config"),
    ("settings", "system.config"),
    ("permission", "security.permission"),
    ("audit", "security.audit"),
    ("check", "security.check"),
    ("code", "coding.task"),
    ("implement", "coding.implement"),
    ("refactor", "coding.refactor"),
    ("debug", "coding.debug"),
    ("fix", "coding.fix"),
    ("write", "coding.write")]

/-- Map natural-language intent text to a canonical action type. -/
def classifyIntent (text : String) : String :=
  let lower := Text.toLowercase text
  match classifyRules.find? (fun r => Text.contains lower r.1) with
  | some r => r.2
  | none => "intent.general"

/-! ## Decomposition -/

/-- A sub-task produced by decomposing an intent. -/
structure SubTask where
  description : String
  capability : String
  action : String

/-- Break a classified intent into an ordered list of sub-tasks. -/
def decomposeIntoTasks (action : String) (intent : Intent) : List SubTask :=
  if action = "file.open" then
    [⟨"Resolve target for: " ++ intent.text, "memory.read", "resolve_target"⟩,
      ⟨"Open: " ++ intent.text, "file.read", "execute_open"⟩]
  else if action ∈ ["file.find", "file.search"] then
    [⟨"Search memory for context: " ++ intent.text, "memory.read", "memory_search"⟩,
      ⟨"Execute file search: " ++ intent.text, "file.read", "file_search"⟩]
  else if action ∈ ["coding.task", "coding.implement", "coding.write", "coding.fix",
      "coding.refactor", "coding.debug"] then
    [⟨"Plan: " ++ intent.text, "coding.plan", "create_plan"⟩,
      ⟨"Implement: " ++ intent.text, "coding.execute", "execute_code"⟩,
      ⟨"Run tests and validate output", "coding.validate", "validate"⟩]
  else if action ∈ ["pkg.install", "pkg.uninstall", "pkg.update"] then
    [⟨"Security review: " ++ intent.text, "security.review", "security_check"⟩,
      ⟨"Execute package operation: " ++ intent.text, "pkg.execute", "pkg_op"⟩]
  else if action ∈ ["security.permission", "security.audit", "security.check"] then
    [⟨"Gather system state for: " ++ intent.text, "security.read", "gather_state"⟩,
      ⟨"Run security analysis: " ++ intent.text, "security.analyze", "analyze"⟩]
  else
    [⟨"Disambiguate intent: " ++ intent.text, "intent.disambiguate", "disambiguate"⟩,
      ⟨"Execute: " ++ intent.text, "general.execute", "execute"⟩]

end Orchestrator

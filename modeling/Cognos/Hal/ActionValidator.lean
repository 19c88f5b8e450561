/-
# `Cognos.Hal.ActionValidator` — the rules an action can violate

`action_validator.rs`: six tests on the target, the action text and two grades of the
context, the rules they name in the order they are tested, and the decision drawn from
them.  `HALContext` holds the fields the validator reads, `HALResult` those it fills in
but the audit text.

The shell rules are regular expressions of a simple kind, a sequence of character
tests each met once or at least once; `Atom` and `search` run these.
-/
import Cognos.Lib.Text

namespace Hal

/-! ## Patterns -/

/-- One item of a pattern: a test on a character, met once or at least once (`+`). -/
structure Atom where
  test : Char → Bool
  plus : Bool

/-- The pattern matches a prefix of the characters. -/
def matchHere : List Atom → List Char → Bool
  | [], _ => true
  | _ :: _, [] => false
  | p :: ps, c :: cs =>
      p.test c && (matchHere ps cs || (p.plus && matchHere (p :: ps) cs))

/-- `Regex::new(p).unwrap().is_match(s)`. -/
def search (ps : List Atom) (s : String) : Bool := s.toList.tails.any (matchHere ps)

/-- The characters of `s`, literally. -/
def lit (s : String) : List Atom := s.toList.map (fun c => ⟨(· == c), false⟩)

/-- `\s+`. -/
def spaces : List Atom := [⟨Text.isWhitespace, true⟩]

/-- `.+`. -/
def anything : List Atom := [⟨(· != '\n'), true⟩]

/-! ## Types -/

inductive IntentSeverity
  | low | moderate | high | critical
  deriving DecidableEq, Repr

inductive SyscallSensitivity
  | safe | sensitive | dangerous | irreversible
  deriving DecidableEq, Repr

inductive HALDecision
  | allow | allowWithNotice | ask | notify | confirm | block | blockAndAlert | escalate
  deriving DecidableEq, Repr

structure HALContext where
  targetResource : String
  requestedAction : String
  severity : IntentSeverity
  syscallSensitivity : SyscallSensitivity

structure HALResult where
  decision : HALDecision
  computedRisk : Float32
  confidence : Float32
  explanation : String
  violatedRules : List String
  requiresUserPrompt : Bool
  escalationRequired : Bool

namespace ActionValidator

/-! ## Rules -/

/-- The trees no path may lie in. -/
def dangerous : List String := ["/etc", "/boot", "/sys", "/proc", "/dev", "/root", "/var/lib"]

def dangerousPath (path : String) : Bool := Text.startsWithAny path dangerous

def rawShellDetected (action : String) : Bool :=
  [lit "rm" ++ spaces ++ lit "-rf", lit "mkfs", lit "dd" ++ spaces ++ lit "if=",
    lit "chmod" ++ spaces ++ lit "777", lit "curl" ++ anything ++ lit "|" ++ anything ++ lit "sh",
    lit "wget" ++ anything ++ lit "|" ++ anything ++ lit "bash"].any (search · action)

def privilegeEscalation (action : String) : Bool :=
  Text.containsAny action ["sudo ", "su ", "setcap", "pkexec", "capsh"]

def destructivePattern (action : String) : Bool :=
  Text.containsAny action ["rm -rf /", ":(){ :|:& };:", "shutdown now", "reboot", "poweroff"]

def suspiciousNetwork (action : String) : Bool :=
  Text.containsAny action ["nc ", "ncat ", "socat ", "0.0.0.0", "reverse_shell"]

def irreversibleAction (context : HALContext) : Bool :=
  context.severity = .critical || context.syscallSensitivity = .irreversible

def finalDecision (violations : List String) (risk confidence : Float32) : HALDecision :=
  if "destructive_pattern" ∈ violations then .block
  else if "privilege_escalation" ∈ violations then .escalate
  else if risk > 0.90 then .block
  else if confidence < 0.25 then .block
  else if risk > 0.70 then .confirm
  else if violations ≠ [] then .notify
  else .allow

/-- The rules with their tests, in the order they are checked. -/
def rules (context : HALContext) : List (Bool × String) :=
  [(dangerousPath context.targetResource, "dangerous_path_access"),
    (rawShellDetected context.requestedAction, "raw_shell_execution"),
    (privilegeEscalation context.requestedAction, "privilege_escalation"),
    (destructivePattern context.requestedAction, "destructive_pattern"),
    (suspiciousNetwork context.requestedAction, "suspicious_network"),
    (irreversibleAction context, "irreversible_action")]

def validate (context : HALContext) (computedRisk confidence : Float32) : HALResult :=
  let violations := ((rules context).filter (·.1)).map (·.2)
  let decision := finalDecision violations computedRisk confidence
  { decision := decision
    computedRisk := computedRisk
    confidence := confidence
    explanation := "validated with " ++ toString violations.length ++ " violations"
    violatedRules := violations
    requiresUserPrompt := decision = .confirm
    escalationRequired := decision = .escalate || decision = .block }

/-! ## What a named violation says -/

/-- The names of the tests that are met. -/
theorem mem_named {tests : List (Bool × String)} {name : String} :
    name ∈ (tests.filter (·.1)).map (·.2) ↔ (true, name) ∈ tests := by
  simp only [List.mem_map, List.mem_filter]
  constructor
  · rintro ⟨⟨b, n⟩, ⟨hm, hb⟩, hn⟩
    simp only at hb hn
    rwa [← hb, ← hn]
  · intro h
    exact ⟨_, ⟨h, rfl⟩, rfl⟩

theorem mem_violatedRules {context : HALContext} {r c : Float32} {name : String} :
    name ∈ (validate context r c).violatedRules ↔ (true, name) ∈ rules context := mem_named

theorem dangerous_path_access_iff {context : HALContext} {r c : Float32} :
    "dangerous_path_access" ∈ (validate context r c).violatedRules
      ↔ dangerousPath context.targetResource = true := by
  rw [mem_violatedRules, eq_comm (b := true)]
  simp [rules]

theorem destructive_pattern_iff {context : HALContext} {r c : Float32} :
    "destructive_pattern" ∈ (validate context r c).violatedRules
      ↔ destructivePattern context.requestedAction = true := by
  rw [mem_violatedRules, eq_comm (b := true)]
  simp [rules]

end ActionValidator

end Hal

/-
# `Cognos.Hal.ExistentialGovernor` — what must not be touched

The governor keeps a set of path prefixes and five kill switches.  An action is held against
the prefixes in whatever order the set gives them; a prefix that its target begins with names
the threat, if it begins with one of the built-in ones itself.  The test compares texts, not
places.

    classify_isSome         when a threat is found, in any order of the set
    mem_protecting          which paths are protected after calls of `protect`
    evaluate_protected      what an armed governor answers by the text of the target
-/
import Mathlib
import Cognos.Lib.LexPath
import Cognos.Lib.Run
import Cognos.Lib.Text

namespace Hal

/-! ## Threats and verdicts -/

/-- The category of protected resource an action threatens. -/
inductive ThreatType
  | halItself | auditChain | kernel | memoryStore | authKeys
  deriving DecidableEq, Repr

inductive ExistentialVerdict
  | safe
  | threatens (t : ThreatType)
  | catastrophic
  deriving DecidableEq, Repr

/-- The action, by what it is about. -/
structure ExistentialAction where
  target : String

/-- The default set of protected resource path prefixes. -/
def defaultProtectedResources : List String :=
  ["/opt/cognos/hal", "/etc/cognos/hal", "/var/lib/cognos/audit", "/sys/kernel", "/proc/sys",
    "/lib/modules", "/var/lib/cognos/memory", "/etc/cognos/keys", "/var/lib/cognos/tokens"]

structure KillSwitchState where
  halSelfArmed : Bool
  auditChainArmed : Bool
  kernelArmed : Bool
  memoryStoreArmed : Bool
  authKeysArmed : Bool
  deriving DecidableEq

def KillSwitchState.allArmed : KillSwitchState := ⟨true, true, true, true, true⟩

/-! ## The governor -/

structure ExistentialGovernor where
  protectedResources : Finset String
  killSwitches : KillSwitchState

namespace ExistentialGovernor

def new : ExistentialGovernor :=
  { protectedResources := defaultProtectedResources.toFinset, killSwitches := .allArmed }

def protect (g : ExistentialGovernor) (path : String) : ExistentialGovernor :=
  { g with protectedResources := insert path g.protectedResources }

def killSwitchArmed (g : ExistentialGovernor) : ThreatType → Bool
  | .halItself => g.killSwitches.halSelfArmed
  | .auditChain => g.killSwitches.auditChainArmed
  | .kernel => g.killSwitches.kernelArmed
  | .memoryStore => g.killSwitches.memoryStoreArmed
  | .authKeys => g.killSwitches.authKeysArmed

/-- The threat that a protected prefix stands for. -/
def threatOf (path : String) : Option ThreatType :=
  if Text.startsWith path "/opt/cognos/hal" || Text.startsWith path "/etc/cognos/hal" then
    some .halItself
  else if Text.startsWith path "/var/lib/cognos/audit" then some .auditChain
  else if Text.startsWith path "/sys/kernel" || Text.startsWith path "/proc/sys" ||
      Text.startsWith path "/lib/modules" then some .kernel
  else if Text.startsWith path "/var/lib/cognos/memory" then some .memoryStore
  else if Text.startsWith path "/etc/cognos/keys" ||
      Text.startsWith path "/var/lib/cognos/tokens" then some .authKeys
  else none

/-- `classify`, where `order` is the order in which the set gives its paths. -/
def classify (order : List String) (action : ExistentialAction) : Option ThreatType :=
  order.findSome? fun path =>
    if !Text.startsWith action.target path then none else threatOf path

def evaluate (g : ExistentialGovernor) (order : List String) (action : ExistentialAction) :
    ExistentialVerdict :=
  match classify order action with
  | none => .safe
  | some t => if g.killSwitchArmed t then .catastrophic else .threatens t

/-- An order in which the set may give its paths. -/
def Order (g : ExistentialGovernor) (order : List String) : Prop :=
  order.Nodup ∧ order.toFinset = g.protectedResources

/-- The governor after `protect` of the paths. -/
def protecting (paths : List String) : ExistentialGovernor := Run.after protect new paths

/-! ## What is recognised -/

/-- The protected path begins with a built-in one. -/
def BuiltIn (path : String) : Prop :=
  ∃ tree ∈ defaultProtectedResources, Text.startsWith path tree = true

theorem isSome_ite (b : Bool) (t : ThreatType) (rest : Option ThreatType) :
    (if b = true then some t else rest).isSome = (b || rest.isSome) := by
  cases b <;> rfl

theorem threatOf_isSome {path : String} : (threatOf path).isSome = true ↔ BuiltIn path := by
  rw [threatOf, isSome_ite, isSome_ite, isSome_ite, isSome_ite, isSome_ite, Option.isSome_none,
    BuiltIn]
  simp only [Bool.or_false, Bool.or_eq_true, defaultProtectedResources, List.mem_cons,
    List.not_mem_nil, or_false, exists_eq_or_imp, exists_eq_left, or_assoc]

/-- A threat is found when the target begins with a protected path that is recognised. -/
theorem classify_isSome {g : ExistentialGovernor} {order : List String} (horder : g.Order order)
    {action : ExistentialAction} :
    (classify order action).isSome = true ↔
      ∃ path ∈ g.protectedResources, Text.startsWith action.target path = true ∧ BuiltIn path := by
  have hmem : ∀ path, path ∈ g.protectedResources ↔ path ∈ order := fun path => by
    rw [← horder.2, List.mem_toFinset]
  unfold classify
  rw [List.findSome?_isSome_iff]
  refine exists_congr fun path => ?_
  rw [hmem]
  refine and_congr_right fun _ => ?_
  cases Text.startsWith action.target path with
  | false => exact iff_of_false Bool.false_ne_true fun h => Bool.false_ne_true h.1
  | true => exact threatOf_isSome.trans (and_iff_right rfl).symm

theorem evaluate_eq_safe {g : ExistentialGovernor} {order : List String}
    {action : ExistentialAction} :
    g.evaluate order action = .safe ↔ classify order action = none := by
  unfold evaluate
  cases classify order action with
  | none => exact iff_of_true rfl rfl
  | some t =>
      refine iff_of_false ?_ (Option.some_ne_none t)
      show (if g.killSwitchArmed t = true then ExistentialVerdict.catastrophic
        else ExistentialVerdict.threatens t) ≠ .safe
      split_ifs <;> exact ExistentialVerdict.noConfusion

/-- With every switch armed a threat is catastrophic. -/
theorem evaluate_eq_catastrophic {g : ExistentialGovernor} (harmed : g.killSwitches = .allArmed)
    {order : List String} {action : ExistentialAction} :
    g.evaluate order action = .catastrophic ↔ (classify order action).isSome = true := by
  have harmedAt : ∀ t, g.killSwitchArmed t = true := fun t => by
    cases t <;> · rw [killSwitchArmed, harmed]; rfl
  unfold evaluate
  cases classify order action with
  | none => exact iff_of_false ExistentialVerdict.noConfusion Bool.false_ne_true
  | some t =>
      refine iff_of_true ?_ rfl
      show (if g.killSwitchArmed t = true then ExistentialVerdict.catastrophic
        else ExistentialVerdict.threatens t) = .catastrophic
      rw [if_pos (harmedAt t)]

/-! ## After `protect` -/

theorem killSwitches_protecting (paths : List String) :
    (protecting paths).killSwitches = .allArmed :=
  Run.invariant_of_step protect (I := fun g => g.killSwitches = .allArmed)
    (fun _ _ h => h) rfl paths

theorem mem_after_protect {g : ExistentialGovernor} {paths : List String} {path : String} :
    path ∈ (Run.after protect g paths).protectedResources ↔
      path ∈ g.protectedResources ∨ path ∈ paths := by
  induction paths generalizing g with
  | nil => exact (or_iff_left List.not_mem_nil).symm
  | cons p paths ih =>
      rw [Run.after_cons, ih, protect, Finset.mem_insert, List.mem_cons, or_assoc, or_left_comm]

/-- The built-in paths and those added are protected, and no others. -/
theorem mem_protecting {paths : List String} {path : String} :
    path ∈ (protecting paths).protectedResources ↔
      path ∈ defaultProtectedResources ∨ path ∈ paths := by
  rw [protecting, mem_after_protect, new, List.mem_toFinset]

/-- The text of the target begins with the path. -/
def Begins (action : ExistentialAction) (path : String) : Prop :=
  Text.startsWith action.target path = true

/-- What an armed governor answers by the text of the target: to one that begins with a
protected path of the built-in trees it says no, one that begins with no protected path is safe,
and the order in which the set gives its paths does not matter. -/
theorem evaluate_protected (paths : List String) (action : ExistentialAction)
    (order : List String) (horder : (protecting paths).Order order) :
    ((∃ path ∈ (protecting paths).protectedResources, Begins action path ∧ BuiltIn path) →
        (protecting paths).evaluate order action = .catastrophic) ∧
      ((∀ path ∈ (protecting paths).protectedResources, ¬ Begins action path) →
        (protecting paths).evaluate order action = .safe) ∧
      ∀ order', (protecting paths).Order order' →
        (protecting paths).evaluate order' action = (protecting paths).evaluate order action := by
  have harmed := killSwitches_protecting paths
  refine ⟨fun h => ?_, fun h => ?_, fun order' horder' => ?_⟩
  · exact (evaluate_eq_catastrophic harmed).mpr ((classify_isSome horder).mpr h)
  · rw [evaluate_eq_safe, ← Option.not_isSome_iff_eq_none, classify_isSome horder]
    rintro ⟨path, hpath, hbegins, -⟩
    exact h path hpath hbegins
  · by_cases h : (classify order action).isSome = true
    · have h' := (classify_isSome horder').mpr ((classify_isSome horder).mp h)
      rw [(evaluate_eq_catastrophic harmed).mpr h, (evaluate_eq_catastrophic harmed).mpr h']
    · have h' : ¬ (classify order' action).isSome = true := fun h' =>
        h ((classify_isSome horder).mpr ((classify_isSome horder').mp h'))
      rw [evaluate_eq_safe.mpr (Option.not_isSome_iff_eq_none.mp h),
        evaluate_eq_safe.mpr (Option.not_isSome_iff_eq_none.mp h')]

/-! ## Texts and places -/

/-- A place in HAL's own tree that is spelled another way is safe, and a sibling of that tree is
not. -/
theorem not_protected_by_place :
    (LexPath.Below "/etc/cognos/hal" "/etc/./cognos/hal/policy.toml" ∧
        new.evaluate defaultProtectedResources ⟨"/etc/./cognos/hal/policy.toml"⟩ = .safe) ∧
      (∀ path ∈ new.protectedResources, ¬ LexPath.Below path "/etc/cognos/hall") ∧
        new.evaluate defaultProtectedResources ⟨"/etc/cognos/hall"⟩ = .catastrophic := by
  refine ⟨⟨by decide, by decide⟩, ?_, by decide⟩
  intro path hpath
  have hall : ∀ path ∈ defaultProtectedResources, ¬ LexPath.Below path "/etc/cognos/hall" := by
    decide
  exact hall path (List.mem_toFinset.mp hpath)

/-- HAL's policy file, with a path of the operator's in the set. -/
theorem evaluate_protected_policy :
    (protecting ["/etc/cognos/keys/ssh"]).evaluate
        ("/etc/cognos/keys/ssh" :: defaultProtectedResources) ⟨"/etc/cognos/hal/policy.toml"⟩ =
        .catastrophic :=
  (evaluate_protected ["/etc/cognos/keys/ssh"] ⟨"/etc/cognos/hal/policy.toml"⟩ _
    ⟨by decide, by decide⟩).1
    ⟨"/etc/cognos/hal", by decide, rfl, "/etc/cognos/hal", by decide, by decide⟩

end ExistentialGovernor

end Hal

/-
# `Cognos.Hal.PathPolicy` — dangerous trees and how a path is spelled

The validator's list names trees; its test compares texts.  Here the two are put side
by side.  A path is `Hidden` when it lies in one of the trees and the text does not show
it, `Mistaken` when the text starts like one of the trees and the path lies elsewhere.
These are all the paths on which the gate and the list disagree (`pathGuarded_iff`).
-/
import Cognos.Lib.LexPath
import Cognos.Hal.PolicyGate

namespace Hal

open Ipc (HalGateRequest)

/-- The path lies at or below one of the listed trees. -/
def InTree (path : String) : Prop := ∃ tree ∈ ActionValidator.dangerous, LexPath.Below tree path

instance (path : String) : Decidable (InTree path) := by
  unfold InTree
  infer_instance

/-- In a tree, but not by its text: spelled through `.`, `..` or repeated slashes. -/
def Hidden (path : String) : Prop := InTree path ∧ ActionValidator.dangerousPath path = false

/-- Outside every tree, but starting like one: a sibling name, or a way in and out again. -/
def Mistaken (path : String) : Prop := ActionValidator.dangerousPath path = true ∧ ¬ InTree path

/-- What the list promises of a request for `op` on `path`: in a tree it is not granted, and
outside the trees the path does not set the kernel-level scope. -/
def PathGuarded (op path : String) : Prop :=
  (InTree path → ∀ token (req : HalGateRequest), req.op = op → req.device = path →
    (evaluate token req).status ≠ "granted") ∧
  (¬ InTree path → (gateProposal op path).scope ≠ .kernelLevel)

/-! ## The scope and the status follow the text -/

theorem gateProposal_scope (op path : String) :
    (gateProposal op path).scope = .kernelLevel ↔ ActionValidator.dangerousPath path = true := by
  unfold gateProposal proposal
  rw [violations_any_dangerous]
  cases ActionValidator.dangerousPath path <;> simp

/-- No request for `op` on `path` is granted, or every one is. -/
theorem not_granted_iff (op path : String) :
    (∀ token (req : HalGateRequest), req.op = op → req.device = path →
      (evaluate token req).status ≠ "granted") ↔
    (ActionValidator.destructivePattern op = true ∨
      ActionValidator.dangerousPath path = true) := by
  constructor
  · intro h
    have := h "" ⟨op, path, [], "", 0, true, ""⟩ rfl rfl
    rw [Ne, granted_iff, not_and_or, Bool.not_eq_false, Bool.not_eq_false] at this
    exact this
  · rintro h token req rfl rfl
    rw [Ne, granted_iff, not_and_or, Bool.not_eq_false, Bool.not_eq_false]
    exact h

/-! ## Where the gate keeps the promise -/

theorem pathGuarded_iff (op path : String) :
    PathGuarded op path ↔
      (Hidden path → ActionValidator.destructivePattern op = true) ∧ ¬ Mistaken path := by
  unfold PathGuarded Hidden Mistaken
  rw [not_granted_iff, Ne, gateProposal_scope]
  by_cases hin : InTree path <;>
    cases ActionValidator.destructivePattern op <;>
    cases ActionValidator.dangerousPath path <;> simp [hin]

/-- A write through `/home/..` to the password file is granted. -/
theorem not_pathGuarded_respelled : ¬ ∀ op path, PathGuarded op path := by
  intro h
  have hin : InTree "/home/../etc/passwd" := by decide
  exact (h "file.write" "/home/../etc/passwd").1 hin "" ⟨"file.write", "/home/../etc/passwd", [],
    "file.write", -1, true, ""⟩ rfl rfl ((granted_iff _ _).mpr ⟨by decide, by decide⟩)

end Hal

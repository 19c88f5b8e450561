/-
# `Cognos.System.TwoGates` — what the two HAL gates ask a human about

HAL has two gates: the gRPC gate, which scores, and the socket gate, which follows a
rule list.  A side effect comes to both, to the second one in the words of
`side_effect_to_gate_request`.  The socket gate asks for a path outside the home
directory and for six kinds of operation; the gRPC gate knows the listed trees and the
destructive patterns.  `gatesAgree_iff` is the whole difference.
-/
import Cognos.Hal.PolicyGate
import Cognos.Orchestrator.ApprovalSocket

namespace System

open Hal Orchestrator
open Ipc (HalGateRequest)

/-- The words that make the socket gate ask, whatever the path. -/
def askedWords : List String := ["delete", "unlink", "remove", "install", "pkg", "config"]

/-- The operation is one the socket gate asks about. -/
def AskedOp (op : String) : Prop := Text.containsAny (Text.toLowercase op) askedWords = true

instance (op : String) : Decidable (AskedOp op) := by
  unfold AskedOp
  infer_instance

/-- What the socket gate holds for a human, the gRPC gate does not grant. -/
def GatesAgree (home : String) (e : SideEffect) : Prop :=
  ∀ fresh traceId,
    (computeHalLevelV0 home (sideEffectToGateRequest fresh e traceId)).1.asks = true →
    ∀ token (req : HalGateRequest), req.op = e.op → req.device = e.path →
      (evaluate token req).status ≠ "granted"

/-! ## The socket gate on a side effect -/

theorem mapGateAction_asked_iff (op : String) :
    mapGateAction op ∈ ["install_package", "modify_config", "delete_file"] ↔ AskedOp op := by
  unfold mapGateAction AskedOp askedWords Text.containsAny
  generalize Text.toLowercase op = lower
  simp only [List.any_cons, List.any_nil, Bool.or_false]
  cases Text.contains lower "delete"
  case true => simp
  cases Text.contains lower "unlink"
  case true => simp
  cases Text.contains lower "remove"
  case true => simp
  cases Text.contains lower "install"
  case true => simp
  cases Text.contains lower "pkg"
  case true => simp
  cases Text.contains lower "config"
  case true => simp
  simp only [Bool.or_false, Bool.false_eq_true, if_false, iff_false]
  split_ifs <;> decide

/-- For a known agent the socket gate asks by the path or by the operation. -/
theorem level_asks_iff {home : String} {fresh : Uuid} {e : SideEffect} {traceId : String}
    (hk : isKnownAgent (gateAgent e.sourceAgent) = true) :
    (computeHalLevelV0 home (sideEffectToGateRequest fresh e traceId)).1.asks = true ↔
      isOutsideUserHome home e.path = true ∨ AskedOp e.op := by
  rw [asks_iff (by simpa using hk) (by simpa using mapGateAction_ne_modify_hal e.op),
    ← mapGateAction_asked_iff]
  simp

/-! ## Agreement -/

/-- The gates agree on an effect exactly when the gRPC gate stops it by itself, or the socket
gate has no question: a path that is not outside home, an operation without the six words. -/
theorem gatesAgree_iff (home : String) (e : SideEffect)
    (hk : isKnownAgent (gateAgent e.sourceAgent) = true) :
    GatesAgree home e ↔
      ActionValidator.destructivePattern e.op = true ∨
      ActionValidator.dangerousPath e.path = true ∨
      (isOutsideUserHome home e.path = false ∧ ¬ AskedOp e.op) := by
  have hask (fresh : Uuid) (traceId : String) :
      (computeHalLevelV0 home (sideEffectToGateRequest fresh e traceId)).1.asks = true ↔
        isOutsideUserHome home e.path = true ∨ AskedOp e.op := level_asks_iff hk
  constructor
  · intro h
    by_contra hno
    simp only [not_or, Bool.not_eq_true, not_and, Decidable.not_not] at hno
    obtain ⟨hd, hp, hq⟩ := hno
    refine h Uuid.nil "" ((hask _ _).mpr ?_) "" ⟨e.op, e.path, [], "", 0, true, ""⟩ rfl rfl
      ((granted_iff _ _).mpr ⟨hd, hp⟩)
    cases ho : isOutsideUserHome home e.path with
    | true => exact .inl rfl
    | false => exact .inr (hq ho)
  · intro h fresh traceId ha token req hop hdev hg
    obtain ⟨hd, hp⟩ := (granted_iff _ _).mp hg
    rw [hop] at hd
    rw [hdev] at hp
    rcases h with h | h | ⟨ho, hq⟩
    · rw [hd] at h; cases h
    · rw [hp] at h; cases h
    · rcases (hask fresh traceId).mp ha with h | h
      · rw [ho] at h; cases h
      · exact hq h

/-- Installing a package through the file agent. -/
def installFirefox : SideEffect := ⟨"pkg.install", "firefox", "pkg.execute", "agent.file"⟩

theorem gatesAgree_iff_installFirefox :
    GatesAgree "/home/ana" installFirefox ↔
      ActionValidator.destructivePattern "pkg.install" = true ∨
      ActionValidator.dangerousPath "firefox" = true ∨
      (isOutsideUserHome "/home/ana" "firefox" = false ∧ ¬ AskedOp "pkg.install") :=
  gatesAgree_iff "/home/ana" installFirefox (by decide)

/-- A package install waits for a human at one gate and is granted at the other. -/
theorem not_gatesAgree_install :
    ¬ ∀ home e, isKnownAgent (gateAgent e.sourceAgent) = true → GatesAgree home e := by
  intro h
  exact h "/home/ana" installFirefox (by decide) Uuid.nil "" (by decide) ""
    ⟨"pkg.install", "firefox", [], "pkg.execute", -1, true, ""⟩ rfl rfl
    ((granted_iff _ _).mpr ⟨by decide, by decide⟩)

end System

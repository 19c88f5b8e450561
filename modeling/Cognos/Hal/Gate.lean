/-
# `Cognos.Hal.Gate` — gate requests and their v0 level

The first part of `approval_flow.rs`: the request an agent sends to the socket gate, the
response it gets, and the simplified rules that grade a request.  The home directory
(`$HOME`) is a parameter of the rules; the clock's type is a parameter of the response.
-/
import Cognos.Lib.Uuid
import Cognos.Lib.FloatText

namespace Hal

/-! ## Protocol types -/

/-- A request from an agent, asking HAL to gate an action. -/
structure GateRequest where
  requestId : Uuid
  agent : String
  action : String
  target : String
  parameters : Json.Value
  isAiGenerated : Bool
  intentId : Option Uuid

inductive GateReason
  | autoApproved | userApproved | autoDenied | userDenied | timeoutDeny | halError
  deriving DecidableEq, Repr

/-- HAL's response to a gate request. -/
structure GateResponse (Time : Type) where
  requestId : Uuid
  approved : Bool
  reason : GateReason
  halScore : Float32
  timestamp : Time

/-- HAL's assessment of what to do with a request before showing UI. -/
inductive HalLevel
  | silent | notify | confirm | block
  deriving DecidableEq, Repr

/-! ## Known agents -/

def knownAgents : List String :=
  ["planner", "memory", "security", "scheduler", "file", "coding", "ui"]

def isKnownAgent (name : String) : Bool := name ∈ knownAgents

/-! ## v0 simplified risk scoring -/

def isOutsideUserHome (home target : String) : Bool :=
  target != "" && !Text.startsWith target home && !Text.startsWith target "~/" &&
    Text.startsWith target "/"

/-- Compute the level and the score by the simplified v0 rules. -/
def computeHalLevelV0 (home : String) (req : GateRequest) : HalLevel × Float32 :=
  if ¬ isKnownAgent req.agent then (.block, 1.0)
  else if req.action = "modify_hal" then (.block, 1.0)
  else if req.action = "execute_binary" ∧ req.isAiGenerated then (.block, 0.9)
  else if isOutsideUserHome home req.target then (.block, 0.85)
  else if req.action ∈ ["install_package", "modify_config", "delete_file"] ∨ req.isAiGenerated then
    (.confirm, if req.action = "delete_file" then 0.75 else 0.65)
  else if req.action ∈ ["move_file", "create_file", "start_service"] then (.notify, 0.4)
  else (.silent, 0.15)

/-- The levels that ask a human. -/
def HalLevel.asks : HalLevel → Bool
  | .confirm | .block => true
  | .silent | .notify => false

/-- What a known agent is stopped for: the path, the operation, or being AI-generated. -/
theorem asks_iff {home : String} {req : GateRequest} (hk : isKnownAgent req.agent = true)
    (hm : req.action ≠ "modify_hal") :
    (computeHalLevelV0 home req).1.asks = true ↔
      isOutsideUserHome home req.target = true ∨
      req.action ∈ ["install_package", "modify_config", "delete_file"] ∨
      req.isAiGenerated = true := by
  unfold computeHalLevelV0
  rw [if_neg (not_not.mpr hk), if_neg hm]
  split
  next hx => exact ⟨fun _ => .inr (.inr hx.2), fun _ => rfl⟩
  split
  next ho => exact ⟨fun _ => .inl ho, fun _ => rfl⟩
  next ho =>
  split
  next hc => exact ⟨fun _ => .inr hc, fun _ => rfl⟩
  next hc =>
  have hno := not_or.mpr ⟨ho, hc⟩
  split <;> exact iff_of_false Bool.false_ne_true hno

/-- The scores a request from a known agent can be shown to a human with. -/
def askedScores : List Float32 := [0.9, 0.85, 0.75, 0.65]

theorem score_of_asks {home : String} {req : GateRequest} (hk : isKnownAgent req.agent = true)
    (hm : req.action ≠ "modify_hal") (ha : (computeHalLevelV0 home req).1.asks = true) :
    (computeHalLevelV0 home req).2 ∈ askedScores := by
  unfold computeHalLevelV0 at ha ⊢
  rw [if_neg (not_not.mpr hk), if_neg hm] at ha ⊢
  split at ha
  next hx => rw [if_pos hx]; exact .head _
  next hx =>
  rw [if_neg hx]
  split at ha
  next ho => rw [if_pos ho]; exact .tail _ (.head _)
  next ho =>
  rw [if_neg ho]
  split at ha
  next hc =>
    rw [if_pos hc]
    show (if _ then _ else _) ∈ askedScores
    split
    · exact .tail _ (.tail _ (.head _))
    · exact .tail _ (.tail _ (.tail _ (.head _)))
  next hc => split at ha <;> cases ha

end Hal

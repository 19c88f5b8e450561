/-
# `Cognos.Hal.RiskScorer` — the formal risk model

`risk_scorer.rs`: seven graded components, a weighted sum in `f32`, hard floors that
no history can lower, and four bands.  The sum is computed as the code computes it,
term by term and rounded after every operation.

What the gate needs of it is in the last section: for an action that is routine in
every respect but the two flags the gate sets, the band is a function of the flags.
-/
import Cognos.Lib.FloatText

namespace Hal

/-! ## Components -/

/-- How reversible the action is. -/
inductive IrreversibilityLevel
  | fullyReversible | reversibleWithEffort | hardToReverse | irreversible
  deriving DecidableEq, Repr

def IrreversibilityLevel.score : IrreversibilityLevel → Float32
  | .fullyReversible => 0.0
  | .reversibleWithEffort => 0.3
  | .hardToReverse => 0.7
  | .irreversible => 1.0

/-- How wide the blast radius of the action is. -/
inductive ScopeLevel
  | singleFileUserHome | multipleFileSingleDir | systemWide | kernelLevel
  deriving DecidableEq, Repr

def ScopeLevel.score : ScopeLevel → Float32
  | .singleFileUserHome => 0.0
  | .multipleFileSingleDir => 0.3
  | .systemWide => 0.7
  | .kernelLevel => 1.0

/-- How trustworthy the source of the action is. -/
inductive TrustContextLevel
  | knownTrusted | knownAnomalous | newApp | unknown
  deriving DecidableEq, Repr

def TrustContextLevel.score : TrustContextLevel → Float32
  | .knownTrusted => 0.0
  | .knownAnomalous => 0.4
  | .newApp => 0.7
  | .unknown => 1.0

/-- Whether the action occurs at an unusual time. -/
inductive TimeAnomalyLevel
  | normal | unusualHour | unusualTimeAndScope
  deriving DecidableEq, Repr

def TimeAnomalyLevel.score : TimeAnomalyLevel → Float32
  | .normal => 0.0
  | .unusualHour => 0.5
  | .unusualTimeAndScope => 1.0

/-- Whether AI-generated code is involved. -/
inductive VibeFlagLevel
  | none | aiGeneratedUnreviewed | aiGeneratedKernelAdjacent
  deriving DecidableEq, Repr

def VibeFlagLevel.score : VibeFlagLevel → Float32
  | .none => 0.0
  | .aiGeneratedUnreviewed => 0.8
  | .aiGeneratedKernelAdjacent => 1.0

/-- How many times the user has done this exact action before. -/
inductive UserHistoryLevel
  | never | rare | frequent | routine
  deriving DecidableEq, Repr

def UserHistoryLevel.score : UserHistoryLevel → Float32
  | .never => 0.0
  | .rare => 0.3
  | .frequent => 0.7
  | .routine => 1.0

/-- How closely this matches a learned behavioral pattern. -/
inductive PatternMatchLevel
  | noMatch | partialMatch | exactMatch
  deriving DecidableEq, Repr

def PatternMatchLevel.score : PatternMatchLevel → Float32
  | .noMatch => 0.0
  | .partialMatch => 0.5
  | .exactMatch => 1.0

/-! ## Input and output -/

/-- An action proposed by an agent, ready to be risk-scored. -/
structure ProposedAction where
  actionType : String
  target : String
  agent : String
  irreversibility : IrreversibilityLevel
  scope : ScopeLevel
  trustContext : TrustContextLevel
  timeAnomaly : TimeAnomalyLevel
  vibeFlag : VibeFlagLevel
  userHistory : UserHistoryLevel
  patternMatch : PatternMatchLevel
  isKernelAdjacent : Bool
  isDelete : Bool

/-- The four HAL response levels. -/
inductive RiskLevel
  | silent | notify | confirm | block
  deriving DecidableEq, Repr

def RiskLevel.fromScore (score : Float32) : RiskLevel :=
  if score < 0.3 then .silent
  else if score < 0.6 then .notify
  else if score < 0.8 then .confirm
  else .block

/-- Individual component scores for transparency and audit. -/
structure ComponentScores where
  irreversibility : Float32
  scope : Float32
  trustContext : Float32
  timeAnomaly : Float32
  vibeFlag : Float32
  userHistory : Float32
  patternMatch : Float32
  hardFloorApplied : Bool
  hardFloorReason : Option String

structure RiskScore where
  score : Float32
  level : RiskLevel
  explanation : String
  components : ComponentScores

/-! ## Weights -/

def w1Irreversibility : Float32 := 0.25
def w2Scope : Float32 := 0.20
def w3TrustContext : Float32 := 0.20
def w4TimeAnomaly : Float32 := 0.10
def w5VibeFlag : Float32 := 0.10
def w6UserHistory : Float32 := 0.10
def w7PatternMatch : Float32 := 0.05

/-! ## Scorer -/

/-- `x.clamp(lo, hi)`. -/
def clamp (x lo hi : Float32) : Float32 :=
  if x < lo then lo else if hi < x then hi else x

/-- A score and the floor that set it, if one did. -/
structure Floored where
  score : Float32
  applied : Bool
  reason : Option String

/-- One hard floor: a score below it is lifted to it, whatever made the score low. -/
def Floored.raise (st : Floored) (floor : Float32) (reason : String) : Floored :=
  if st.score < floor then ⟨floor, true, some reason⟩ else st

def rawScore (a : ProposedAction) : Float32 :=
  w1Irreversibility * a.irreversibility.score
    + w2Scope * a.scope.score
    + w3TrustContext * a.trustContext.score
    + w4TimeAnomaly * a.timeAnomaly.score
    + w5VibeFlag * a.vibeFlag.score
    - w6UserHistory * a.userHistory.score
    - w7PatternMatch * a.patternMatch.score

/-- The hard floors, in the order the code applies them. -/
def applyFloors (a : ProposedAction) (score : Float32) : Floored :=
  let st : Floored := ⟨score, false, none⟩
  let st := if a.isDelete then
      st.raise 0.5 "Hard floor: delete actions always ≥ 0.5 regardless of history"
    else st
  let st := if a.isKernelAdjacent || a.scope = .kernelLevel then
      st.raise 0.7 "Hard floor: kernel-adjacent actions always ≥ 0.7"
    else st
  if a.vibeFlag = .aiGeneratedUnreviewed ∨ a.vibeFlag = .aiGeneratedKernelAdjacent then
    st.raise 0.8 "Hard floor: AI-generated unreviewed code always ≥ 0.8"
  else st

def RiskLevel.label : RiskLevel → String
  | .silent => "auto-approved"
  | .notify => "notification sent"
  | .confirm => "requires confirmation"
  | .block => "blocked — explicit approval required"

/-- The explanation shown in confirmation and block dialogs. -/
def describeScoreInternal (a : ProposedAction) (level : RiskLevel) (st : Floored) : String :=
  let parts : List String :=
    [a.actionType ++ " on '" ++ a.target ++ "': " ++ level.label ++ " (score "
        ++ FloatText.fixed2 (FloatText.widen st.score) ++ ")"]
    ++ (if a.irreversibility.score ≥ 0.7 then
          ["This action is difficult or impossible to reverse."]
        else if a.irreversibility.score ≥ 0.3 then ["Reversible, but not trivially so."] else [])
    ++ (if a.scope.score ≥ 0.7 then ["Affects system-wide or multiple-user scope."] else [])
    ++ (if a.trustContext.score ≥ 0.7 then ["Source is new or unverified."] else [])
    ++ (if a.vibeFlag.score ≥ 0.8 then
          ["This action involves AI-generated code that has not been human-reviewed."] else [])
    ++ (if a.timeAnomaly.score ≥ 0.5 then
          ["This action is occurring outside your normal usage patterns."] else [])
    ++ (if a.userHistory.score ≥ 0.7 then
          ["You have done this " ++ (if a.userHistory.score ≥ 1.0 then "over 100" else "over 20")
            ++ " times before in similar context."] else [])
    ++ (match st.applied, st.reason with
        | true, some reason => ["Note: " ++ reason]
        | _, _ => [])
  " ".intercalate parts

/-- Compute the risk score R(A) for a proposed action. -/
def scoreAction (a : ProposedAction) : RiskScore :=
  let st := applyFloors a (clamp (rawScore a) 0.0 1.0)
  let level := RiskLevel.fromScore st.score
  { score := st.score
    level := level
    explanation := describeScoreInternal a level st
    components :=
      { irreversibility := a.irreversibility.score
        scope := a.scope.score
        trustContext := a.trustContext.score
        timeAnomaly := a.timeAnomaly.score
        vibeFlag := a.vibeFlag.score
        userHistory := a.userHistory.score
        patternMatch := a.patternMatch.score
        hardFloorApplied := st.applied
        hardFloorReason := st.reason } }

/-! ## The band of a routine action -/

/-- Routine in every respect: known source, usual hour, no AI code, done a hundred times. -/
def ProposedAction.Routine (a : ProposedAction) : Prop :=
  a.trustContext = .knownTrusted ∧ a.timeAnomaly = .normal ∧ a.vibeFlag = .none ∧
    a.userHistory = .routine ∧ a.patternMatch = .exactMatch

/-- The grading of the two remaining components that goes with the two flags. -/
def ProposedAction.Flagged (a : ProposedAction) : Prop :=
  a.irreversibility = (if a.isDelete then .irreversible else .fullyReversible) ∧
    a.scope = (if a.isKernelAdjacent then .kernelLevel else .singleFileUserHome)

/-- Only the floors speak: the kernel floor asks for confirmation, the delete floor notifies. -/
def flaggedLevel (kernel delete : Bool) : RiskLevel :=
  if kernel then .confirm else if delete then .notify else .silent

/-- The names in an action do not move its score. -/
theorem scoreAction_level_anon (a : ProposedAction) :
    (scoreAction a).level
      = (scoreAction { a with actionType := "", target := "", agent := "" }).level := rfl

theorem scoreAction_level {a : ProposedAction} (hr : a.Routine) (hf : a.Flagged) :
    (scoreAction a).level = flaggedLevel a.isKernelAdjacent a.isDelete := by
  obtain ⟨ht, hm, hv, hu, hp⟩ := hr
  obtain ⟨hi, hs⟩ := hf
  rw [scoreAction_level_anon, ht, hm, hv, hu, hp, hi, hs]
  cases a.isKernelAdjacent <;> cases a.isDelete <;> decide +kernel

end Hal

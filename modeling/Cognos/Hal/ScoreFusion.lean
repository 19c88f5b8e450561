/-
# `Cognos.Hal.ScoreFusion` — the fused score and its floors

`score_fusion.rs` in exact arithmetic, over any ordered field: seven components are weighted,
five of them for the risk and two against it, the sum is clamped, and hard floors lift what
history has lowered.  The weights are checked for their sum alone, so one of them may be
negative; a component of negative weight pulls the other way.

    Raises                  more of what raises the score, less of what lowers it
    fuse_mono               raising so never lowers the score or its level
    applyHardFloors_score   the floors make it the greatest of the score and the floors
    fusion_monotone         both, for weights that were accepted
-/
import Mathlib
import Cognos.Hal.RiskScorer

namespace Hal

namespace Fusion

/-! ## Weights -/

/-- Weights applied to each component; they must sum to one. -/
structure FusionWeights (K : Type) where
  irreversibility : K
  scope : K
  trust : K
  timeAnomaly : K
  vibe : K
  userHistory : K
  pattern : K

/-- The components of an action. -/
structure ComponentScores (K : Type) where
  irreversibility : K
  scope : K
  trustContext : K
  timeAnomaly : K
  vibeFlag : K
  userHistory : K
  patternMatch : K
  hardFloorApplied : Bool
  hardFloorReason : Option String

structure RiskScore (K : Type) where
  score : K
  level : RiskLevel
  explanation : String
  components : ComponentScores K

/-- The weights do not sum to one. -/
inductive FusionError (K : Type)
  | invalidWeights (actual : K)

structure ScoreFusion (K : Type) where
  weights : FusionWeights K

variable {K : Type} [Field K] [LinearOrder K]

namespace FusionWeights

/-- `FusionWeights::default()`. -/
def default : FusionWeights K where
  irreversibility := 0.25
  scope := 0.20
  trust := 0.20
  timeAnomaly := 0.10
  vibe := 0.10
  userHistory := 0.10
  pattern := 0.05

def sum (w : FusionWeights K) : K :=
  w.irreversibility + w.scope + w.trust + w.timeAnomaly + w.vibe + w.userHistory + w.pattern

def isValid (w : FusionWeights K) : Bool := decide (|w.sum - 1| < 0.001)

end FusionWeights

/-! ## Floors -/

/-- Marker for actions that trigger a hard floor. -/
inductive HardFloorTrigger
  | delete | kernelAdjacent | aiUnreviewed | irreversibleKernel
  deriving DecidableEq, Repr

namespace HardFloorTrigger

def floor : HardFloorTrigger → K
  | delete => 0.5
  | kernelAdjacent => 0.7
  | aiUnreviewed => 0.8
  | irreversibleKernel => 1.0

def reason : HardFloorTrigger → String
  | delete => "delete actions always >= 0.5 regardless of history"
  | kernelAdjacent => "kernel-adjacent actions always >= 0.7"
  | aiUnreviewed => "AI-generated unreviewed code always >= 0.8"
  | irreversibleKernel => "irreversible + kernel-adjacent = mandatory block (1.0)"

end HardFloorTrigger

/-- What decides which floors apply. -/
structure HardFloorAction where
  isDelete : Bool
  isKernelAdjacent : Bool
  isIrreversible : Bool
  isAiUnreviewed : Bool

/-- The triggers that apply, the most severe first. -/
def HardFloorAction.triggers (a : HardFloorAction) : List HardFloorTrigger :=
  (if a.isIrreversible && a.isKernelAdjacent then [.irreversibleKernel] else []) ++
    (if a.isAiUnreviewed then [.aiUnreviewed] else []) ++
    (if a.isKernelAdjacent then [.kernelAdjacent] else []) ++
    if a.isDelete then [.delete] else []

/-! ## The engine -/

namespace ScoreFusion

def withWeights (weights : FusionWeights K) : Except (FusionError K) (ScoreFusion K) :=
  if !weights.isValid then .error (.invalidWeights weights.sum) else .ok { weights := weights }

/-- `score.clamp(0.0, 1.0)`. -/
def clamp (score : K) : K := if score < 0 then 0 else if 1 < score then 1 else score

def levelFor (score : K) : RiskLevel :=
  if score < 0.3 then .silent
  else if score < 0.6 then .notify
  else if score < 0.8 then .confirm
  else .block

/-- The weighted sum. -/
def raw (w : FusionWeights K) (c : ComponentScores K) : K :=
  w.irreversibility * c.irreversibility + w.scope * c.scope + w.trust * c.trustContext +
    w.timeAnomaly * c.timeAnomaly + w.vibe * c.vibeFlag - w.userHistory * c.userHistory -
    w.pattern * c.patternMatch

def fuse (f : ScoreFusion K) (components : ComponentScores K) : RiskScore K :=
  let score := clamp (raw f.weights components)
  { score := score, level := levelFor score, explanation := "", components := components }

/-- A score on its way through the floors. -/
structure Floored (K : Type) where
  score : K
  floorApplied : Bool
  floorReason : Option String

/-- One floor. -/
def Floored.raise (st : Floored K) (trigger : HardFloorTrigger) : Floored K :=
  if st.score < trigger.floor then ⟨trigger.floor, true, some trigger.reason⟩ else st

def applyHardFloors (score : RiskScore K) (action : HardFloorAction) : RiskScore K :=
  let st := action.triggers.foldl Floored.raise ⟨score.score, false, none⟩
  { score with
    score := st.score
    level := levelFor st.score
    components := { score.components with
      hardFloorApplied := st.floorApplied, hardFloorReason := st.floorReason } }

/-! ## Levels -/

/-- The levels from the mildest on. -/
def rank : RiskLevel → Nat
  | .silent => 0
  | .notify => 1
  | .confirm => 2
  | .block => 3

theorem rank_levelFor_mono {x y : K} (h : x ≤ y) : rank (levelFor x) ≤ rank (levelFor y) := by
  unfold levelFor
  by_cases h1 : y < 0.3
  · rw [if_pos (h.trans_lt h1), if_pos h1]
  rw [if_neg h1]
  by_cases h2 : y < 0.6
  · rw [if_pos h2, if_pos (h.trans_lt h2)]
    split_ifs <;> decide
  rw [if_neg h2]
  by_cases h3 : y < 0.8
  · rw [if_pos h3, if_pos (h.trans_lt h3)]
    split_ifs <;> decide
  · rw [if_neg h3]
    split_ifs <;> decide

/-! ## The weighted sum -/

variable [IsStrictOrderedRing K]

theorem clamp_eq (x : K) : clamp x = max 0 (min x 1) := by
  unfold clamp
  split_ifs with h0 h1
  · rw [min_eq_left (h0.le.trans zero_le_one), max_eq_left h0.le]
  · rw [min_eq_right h1.le, max_eq_right zero_le_one]
  · rw [min_eq_left (not_lt.mp h1), max_eq_right (not_lt.mp h0)]

theorem clamp_mono {x y : K} (h : x ≤ y) : clamp x ≤ clamp y := by
  rw [clamp_eq, clamp_eq]
  exact max_le_max le_rfl (min_le_min h le_rfl)

/-- A component is raised, which a negative weight does not allow. -/
def Up (weight a b : K) : Prop := a = b ∨ (0 ≤ weight ∧ a ≤ b)

/-- From `x` to `y` the components that count for the risk are raised, and those that count
against it lowered; a component of negative weight stays as it is. -/
structure Raises (w : FusionWeights K) (x y : ComponentScores K) : Prop where
  irreversibility : Up w.irreversibility x.irreversibility y.irreversibility
  scope : Up w.scope x.scope y.scope
  trustContext : Up w.trust x.trustContext y.trustContext
  timeAnomaly : Up w.timeAnomaly x.timeAnomaly y.timeAnomaly
  vibeFlag : Up w.vibe x.vibeFlag y.vibeFlag
  userHistory : Up w.userHistory y.userHistory x.userHistory
  patternMatch : Up w.pattern y.patternMatch x.patternMatch

theorem Up.mul_le {weight a b : K} (h : Up weight a b) : weight * a ≤ weight * b := by
  rcases h with rfl | ⟨hweight, h⟩
  · exact le_rfl
  · exact mul_le_mul_of_nonneg_left h hweight

theorem raw_mono {w : FusionWeights K} {x y : ComponentScores K} (h : Raises w x y) :
    raw w x ≤ raw w y := by
  have hplus : w.irreversibility * x.irreversibility + w.scope * x.scope +
      w.trust * x.trustContext + w.timeAnomaly * x.timeAnomaly + w.vibe * x.vibeFlag ≤
      w.irreversibility * y.irreversibility + w.scope * y.scope + w.trust * y.trustContext +
        w.timeAnomaly * y.timeAnomaly + w.vibe * y.vibeFlag :=
    add_le_add (add_le_add (add_le_add (add_le_add h.irreversibility.mul_le h.scope.mul_le)
      h.trustContext.mul_le) h.timeAnomaly.mul_le) h.vibeFlag.mul_le
  exact sub_le_sub (sub_le_sub hplus h.userHistory.mul_le) h.patternMatch.mul_le

theorem fuse_mono {f : ScoreFusion K} {x y : ComponentScores K} (h : Raises f.weights x y) :
    (f.fuse x).score ≤ (f.fuse y).score ∧ rank (f.fuse x).level ≤ rank (f.fuse y).level := by
  have hscore : (f.fuse x).score ≤ (f.fuse y).score := clamp_mono (raw_mono h)
  exact ⟨hscore, rank_levelFor_mono hscore⟩

omit [IsStrictOrderedRing K] in
theorem withWeights_of_valid {w : FusionWeights K} (h : |w.sum - 1| < 0.001) :
    withWeights w = .ok ⟨w⟩ := by
  have hvalid : w.isValid = true := decide_eq_true h
  rw [withWeights, hvalid]
  rfl

omit [IsStrictOrderedRing K] in
theorem weights_withWeights {w : FusionWeights K} {f : ScoreFusion K}
    (h : withWeights w = .ok f) : f.weights = w := by
  unfold withWeights at h
  split at h
  · cases h
  · cases h
    rfl

/-! ## The floors -/

/-- The score and the floors of the triggers. -/
def candidates (score : K) (triggers : List HardFloorTrigger) : Set K :=
  insert score {x | ∃ t ∈ triggers, x = t.floor}

omit [Field K] [IsStrictOrderedRing K] in
theorem isGreatest_insert_max {s : Set K} {a b g : K} (h : IsGreatest (insert (max a b) s) g) :
    IsGreatest (insert a (insert b s)) g := by
  have hmax : max a b ≤ g := h.2 (Set.mem_insert _ _)
  constructor
  · rcases h.1 with rfl | hg
    · rcases max_choice a b with hab | hab
      · rw [hab]
        exact Or.inl rfl
      · rw [hab]
        exact Or.inr (Or.inl rfl)
    · exact Or.inr (Or.inr hg)
  · rintro x (rfl | rfl | hx)
    · exact (le_max_left _ _).trans hmax
    · exact (le_max_right _ _).trans hmax
    · exact h.2 (Or.inr hx)

omit [LinearOrder K] [IsStrictOrderedRing K] in
theorem candidates_cons (score : K) (t : HardFloorTrigger) (ts : List HardFloorTrigger) :
    candidates score (t :: ts) = insert score (insert t.floor {x | ∃ t ∈ ts, x = t.floor}) := by
  ext x
  simp only [candidates, List.mem_cons, Set.mem_insert_iff, Set.mem_ofPred_eq, exists_eq_or_imp]

omit [IsStrictOrderedRing K] in
theorem score_raise (st : Floored K) (t : HardFloorTrigger) :
    (st.raise t).score = max st.score t.floor := by
  unfold Floored.raise
  split_ifs with h
  · exact (max_eq_right h.le).symm
  · exact (max_eq_left (not_lt.mp h)).symm

omit [IsStrictOrderedRing K] in
theorem isGreatest_foldl_raise (ts : List HardFloorTrigger) (st : Floored K) :
    IsGreatest (candidates st.score ts) (ts.foldl Floored.raise st).score := by
  induction ts generalizing st with
  | nil =>
      refine ⟨Or.inl rfl, ?_⟩
      rintro x (rfl | ⟨t, ht, -⟩)
      · exact le_rfl
      · cases ht
  | cons t ts ih =>
      rw [candidates_cons, List.foldl_cons]
      refine isGreatest_insert_max ?_
      rw [← score_raise]
      exact ih (st.raise t)

omit [IsStrictOrderedRing K] in
/-- With the floors the score is the greatest of itself and the floors that apply. -/
theorem applyHardFloors_score (score : RiskScore K) (action : HardFloorAction) :
    IsGreatest (candidates score.score action.triggers) (applyHardFloors score action).score :=
  isGreatest_foldl_raise action.triggers ⟨score.score, false, none⟩

omit [IsStrictOrderedRing K] in
/-- The floors of an action that were applied once have nothing left to lift. -/
theorem applyHardFloors_again (score : RiskScore K) (action : HardFloorAction) :
    (applyHardFloors (applyHardFloors score action) action).score =
      (applyHardFloors score action).score := by
  refine (applyHardFloors_score (applyHardFloors score action) action).unique ⟨Or.inl rfl, ?_⟩
  rintro x (rfl | hx)
  · exact le_rfl
  · exact (applyHardFloors_score score action).2 (Or.inr hx)

/-! ## Accepted weights -/

/-- Under weights that were accepted, raising components lowers neither the score nor its level;
and the floors give the greatest of the score and the floors that apply, with its level, which
a second application leaves alone. -/
theorem fusion_monotone :
    (∀ (w : FusionWeights K) (f : ScoreFusion K), withWeights w = .ok f →
        ∀ x y, Raises w x y →
          (f.fuse x).score ≤ (f.fuse y).score ∧
            rank (f.fuse x).level ≤ rank (f.fuse y).level) ∧
      ∀ (score : RiskScore K) (action : HardFloorAction),
        IsGreatest (candidates score.score action.triggers) (applyHardFloors score action).score ∧
          (applyHardFloors score action).level =
            levelFor (applyHardFloors score action).score ∧
          (applyHardFloors (applyHardFloors score action) action).score =
            (applyHardFloors score action).score ∧
          (applyHardFloors (applyHardFloors score action) action).level =
            (applyHardFloors score action).level := by
  refine ⟨fun w f hf x y h => ?_, fun score action => ?_⟩
  · rw [← weights_withWeights hf] at h
    exact fuse_mono h
  · have hagain := applyHardFloors_again score action
    exact ⟨applyHardFloors_score score action, rfl, hagain, congrArg levelFor hagain⟩

/-! ## A negative weight -/

/-- All the risk in the scope, and more; irreversibility counts against it. -/
def skewed : FusionWeights ℚ where
  irreversibility := -1
  scope := 2
  trust := 0
  timeAnomaly := 0
  vibe := 0
  userHistory := 0
  pattern := 0

def components (irreversibility : ℚ) : ComponentScores ℚ where
  irreversibility := irreversibility
  scope := 1 / 2
  trustContext := 0
  timeAnomaly := 0
  vibeFlag := 0
  userHistory := 0
  patternMatch := 0
  hardFloorApplied := false
  hardFloorReason := none

/-- The weights are accepted, and the irreversible action has the lower score and level. -/
theorem not_monotone_skewed :
    withWeights skewed = .ok ⟨skewed⟩ ∧
      ((⟨skewed⟩ : ScoreFusion ℚ).fuse (components 1)).score <
        ((⟨skewed⟩ : ScoreFusion ℚ).fuse (components 0)).score ∧
      rank ((⟨skewed⟩ : ScoreFusion ℚ).fuse (components 1)).level <
        rank ((⟨skewed⟩ : ScoreFusion ℚ).fuse (components 0)).level := by
  have hhigh : clamp (raw skewed (components 0)) = 1 := by
    norm_num [clamp_eq, raw, skewed, components]
  have hlow : clamp (raw skewed (components 1)) = 0 := by
    norm_num [clamp_eq, raw, skewed, components]
  refine ⟨withWeights_of_valid (by norm_num [FusionWeights.sum, skewed]), ?_, ?_⟩
  · show clamp (raw skewed (components 1)) < clamp (raw skewed (components 0))
    rw [hhigh, hlow]
    exact zero_lt_one
  · show rank (levelFor (clamp (raw skewed (components 1)))) <
      rank (levelFor (clamp (raw skewed (components 0))))
    rw [hhigh, hlow]
    norm_num [levelFor, rank]

theorem default_valid : |(FusionWeights.default : FusionWeights K).sum - 1| < 0.001 := by
  norm_num [FusionWeights.sum, FusionWeights.default]

/-- The default weights, and an action that deletes. -/
theorem fusion_monotone_default :
    ((⟨.default⟩ : ScoreFusion ℚ).fuse (components 0)).score ≤
        ((⟨.default⟩ : ScoreFusion ℚ).fuse (components 1)).score ∧
      IsGreatest (candidates (0.2 : ℚ) [.delete])
        (applyHardFloors ⟨0.2, .silent, "", components 0⟩ ⟨true, false, false, false⟩).score :=
  ⟨(fusion_monotone.1 .default ⟨.default⟩ (withWeights_of_valid default_valid) (components 0)
      (components 1) ⟨Or.inr (by norm_num [FusionWeights.default, components]), Or.inl rfl,
        Or.inl rfl, Or.inl rfl, Or.inl rfl, Or.inl rfl, Or.inl rfl⟩).1,
    (fusion_monotone.2 ⟨0.2, .silent, "", components 0⟩ ⟨true, false, false, false⟩).1⟩

end ScoreFusion

end Fusion

end Hal

/-
# `Cognos.Hal.PolicyEngine` — how strict the deciders are

The policy engine and the action validator draw their decisions alike: some violations block,
some escalate, then the risk and the confidence are held against bounds, and what is left of
the violations is a notice.  Each is a `Cascade` with names and bounds of its own.  Escalation
comes before the bounds, so that it can take the place of a block that only they would give.

    Cascade.stricter_iff        when stricter facts give a decision at least as strict
    deciders_strictness         and so for both deciders, with the restraint boundary
-/
import Cognos.Hal.ActionValidator
import Cognos.Lib.FloatOrder

namespace Hal

/-! ## The policy engine -/

structure BehavioralMetrics where
  anomalyScore : Float32
  escalationAttempts : UInt32

structure SessionContext where
  userPresent : Bool

/-- `HALContext` with what the policy engine reads of it. -/
structure PolicyContext extends HALContext where
  behavioral : BehavioralMetrics
  session : SessionContext

structure RestraintBoundary where
  maximumAllowedRisk : Float32
  irreversibleActionLock : Bool
  requireUserPresence : Bool
  requireMultiFactor : Bool

namespace PolicyEngine

def irreversible (context : HALContext) : Bool :=
  context.severity = .critical || context.syscallSensitivity = .irreversible

def policyDecision (violations : List String) (risk confidence : Float32) : HALDecision :=
  if "irreversible_action_locked" ∈ violations then .block
  else if "behavioral_anomaly" ∈ violations then .escalate
  else if "repeated_escalation" ∈ violations then .escalate
  else if risk > 0.95 then .block
  else if confidence < 0.20 then .block
  else if risk > 0.70 then .confirm
  else if violations ≠ [] then .notify
  else .allow

/-- The rules with their tests, in the order they are checked. -/
def rules (context : PolicyContext) (risk confidence : Float32) (boundaries : RestraintBoundary) :
    List (Bool × String) :=
  [(decide (risk > boundaries.maximumAllowedRisk), "risk_boundary_exceeded"),
    (boundaries.irreversibleActionLock && irreversible context.toHALContext,
      "irreversible_action_locked"),
    (boundaries.requireUserPresence && !context.session.userPresent, "user_presence_required"),
    (boundaries.requireMultiFactor && decide (confidence < 0.92), "multi_factor_requirement"),
    (decide (context.behavioral.anomalyScore > 0.85), "behavioral_anomaly"),
    (decide (context.behavioral.escalationAttempts > 3), "repeated_escalation")]

def evaluate (context : PolicyContext) (risk confidence : Float32)
    (boundaries : RestraintBoundary) : HALResult :=
  let violated := ((rules context risk confidence boundaries).filter (·.1)).map (·.2)
  let decision := policyDecision violated risk confidence
  { decision := decision
    computedRisk := risk
    confidence := confidence
    explanation := "policy evaluation with " ++ toString violated.length ++ " rule violations"
    violatedRules := violated
    requiresUserPrompt := decision = .confirm
    escalationRequired := decision = .escalate || decision = .block }

theorem mem_violatedRules {context : PolicyContext} {risk confidence : Float32}
    {boundaries : RestraintBoundary} {name : String} :
    name ∈ (evaluate context risk confidence boundaries).violatedRules ↔
      (true, name) ∈ rules context risk confidence boundaries := ActionValidator.mem_named

end PolicyEngine

/-! ## Strictness -/

/-- The decisions a decider draws, from the mildest on. -/
def decisionOrder : List HALDecision := [.allow, .notify, .confirm, .escalate, .block]

def strictness (d : HALDecision) : Nat := decisionOrder.idxOf d

/-- A grade is the same or higher. -/
def Raised (x y : Float32) : Prop := x = y ∨ x ≤ y

theorem Raised.lt {x y bound : Float32} (h : Raised x y) (hx : bound < x) : bound < y := by
  rcases h with rfl | h
  · exact hx
  · exact FloatText.lt_of_lt_of_le32 hx h

theorem Raised.lt_of_lt {x y bound : Float32} (h : Raised x y) (hy : y < bound) : x < bound := by
  rcases h with rfl | h
  · exact hy
  · exact FloatText.lt_of_le_of_lt32 h hy

/-! ## Cascades -/

/-- The names that block, those that escalate, and the bounds past which the grades block. -/
structure Cascade where
  blocking : List String
  escalating : List String
  maxRisk : Float32
  minConfidence : Float32

namespace Cascade

/-- Some violation is among the names. -/
def Hits (names violations : List String) : Prop := ∃ name ∈ names, name ∈ violations

instance (names violations : List String) : Decidable (Hits names violations) :=
  inferInstanceAs (Decidable (∃ name ∈ names, name ∈ violations))

/-- The grades alone block. -/
def OutOfBounds (c : Cascade) (risk confidence : Float32) : Prop :=
  risk > c.maxRisk ∨ confidence < c.minConfidence

instance (c : Cascade) (risk confidence : Float32) : Decidable (c.OutOfBounds risk confidence) :=
  inferInstanceAs (Decidable (_ ∨ _))

def decide (c : Cascade) (violations : List String) (risk confidence : Float32) : HALDecision :=
  if Hits c.blocking violations then .block
  else if Hits c.escalating violations then .escalate
  else if c.OutOfBounds risk confidence then .block
  else if risk > 0.70 then .confirm
  else if violations ≠ [] then .notify
  else .allow

theorem ite_outOfBounds (c : Cascade) (risk confidence : Float32) (d d' : HALDecision) :
    (if c.OutOfBounds risk confidence then d else d') =
      if risk > c.maxRisk then d else if confidence < c.minConfidence then d else d' :=
  ite_or ..

/-- A block that only the bounds gave makes room for an escalation. -/
def Masked (c : Cascade) (violations : List String) (risk confidence : Float32)
    (violations' : List String) : Prop :=
  c.OutOfBounds risk confidence ∧ ¬ Hits c.escalating violations ∧
    Hits c.escalating violations' ∧ ¬ Hits c.blocking violations'

theorem hits_singleton {name : String} {violations : List String} :
    Hits [name] violations ↔ name ∈ violations := by simp [Hits]

theorem hits_pair {name name' : String} {violations : List String} :
    Hits [name, name'] violations ↔ name ∈ violations ∨ name' ∈ violations := by simp [Hits]

theorem Hits.mono {names violations violations' : List String} (h : Hits names violations)
    (hsub : violations ⊆ violations') : Hits names violations' := by
  obtain ⟨name, hname, hmem⟩ := h
  exact ⟨name, hname, hsub hmem⟩

theorem OutOfBounds.mono {c : Cascade} {risk confidence risk' confidence' : Float32}
    (h : c.OutOfBounds risk confidence) (hrisk : Raised risk risk')
    (hconfidence : Raised confidence' confidence) : c.OutOfBounds risk' confidence' :=
  h.imp hrisk.lt hconfidence.lt_of_lt

theorem decide_blocking {c : Cascade} {violations : List String} {risk confidence : Float32}
    (h : Hits c.blocking violations) : c.decide violations risk confidence = .block := if_pos h

theorem decide_escalating {c : Cascade} {violations : List String} {risk confidence : Float32}
    (hblock : ¬ Hits c.blocking violations) (h : Hits c.escalating violations) :
    c.decide violations risk confidence = .escalate := by
  rw [decide, if_neg hblock, if_pos h]

theorem decide_outOfBounds {c : Cascade} {violations : List String} {risk confidence : Float32}
    (hescalate : ¬ Hits c.escalating violations) (h : c.OutOfBounds risk confidence) :
    c.decide violations risk confidence = .block := by
  rw [decide, if_neg hescalate, if_pos h, ite_self]

/-- What no name and no bound settles. -/
theorem decide_within {c : Cascade} {violations : List String} {risk confidence : Float32}
    (hblock : ¬ Hits c.blocking violations) (hescalate : ¬ Hits c.escalating violations)
    (h : ¬ c.OutOfBounds risk confidence) :
    c.decide violations risk confidence =
      if risk > 0.70 then .confirm else if violations ≠ [] then .notify else .allow := by
  rw [decide, if_neg hblock, if_neg hescalate, if_neg h]

theorem strictness_decide_le (c : Cascade) (violations : List String) (risk confidence : Float32) :
    strictness (c.decide violations risk confidence) ≤ strictness .block := by
  unfold decide
  split_ifs <;> decide

/-- Stricter facts give a decision at least as strict, unless an escalation takes the place of
a block that only the bounds gave. -/
theorem stricter_iff (c : Cascade) {violations violations' : List String}
    {risk confidence risk' confidence' : Float32} (hsub : violations ⊆ violations')
    (hrisk : Raised risk risk') (hconfidence : Raised confidence' confidence) :
    strictness (c.decide violations risk confidence) ≤
        strictness (c.decide violations' risk' confidence') ↔
      ¬ c.Masked violations risk confidence violations' := by
  by_cases hblock' : Hits c.blocking violations'
  · rw [decide_blocking hblock']
    exact iff_of_true (c.strictness_decide_le _ _ _) fun h => h.2.2.2 hblock'
  have hblock : ¬ Hits c.blocking violations := fun h => hblock' (h.mono hsub)
  by_cases hescalate' : Hits c.escalating violations'
  · rw [decide_escalating hblock' hescalate']
    by_cases hescalate : Hits c.escalating violations
    · rw [decide_escalating hblock hescalate]
      exact iff_of_true le_rfl fun h => h.2.1 hescalate
    by_cases hbounds : c.OutOfBounds risk confidence
    · rw [decide_outOfBounds hescalate hbounds]
      refine iff_of_false (by decide) fun h => ?_
      exact h ⟨hbounds, hescalate, hescalate', hblock'⟩
    · rw [decide_within hblock hescalate hbounds]
      refine iff_of_true ?_ fun h => hbounds h.1
      split_ifs <;> decide
  have hescalate : ¬ Hits c.escalating violations := fun h => hescalate' (h.mono hsub)
  refine iff_of_true ?_ fun h => hescalate' h.2.2.1
  by_cases hbounds' : c.OutOfBounds risk' confidence'
  · rw [decide_outOfBounds hescalate' hbounds']
    exact c.strictness_decide_le _ _ _
  have hbounds : ¬ c.OutOfBounds risk confidence := fun h =>
    hbounds' (h.mono hrisk hconfidence)
  rw [decide_within hblock hescalate hbounds, decide_within hblock' hescalate' hbounds']
  by_cases hconfirm : risk > 0.70
  · rw [if_pos hconfirm, if_pos (hrisk.lt hconfirm)]
  rw [if_neg hconfirm]
  by_cases hnotice : violations = []
  · rw [if_neg (not_not.mpr hnotice)]
    exact Nat.zero_le _
  · have hnotice' : violations' ≠ [] := fun h => hnotice (List.subset_nil.mp (h ▸ hsub))
    rw [if_pos hnotice, if_pos hnotice']
    split_ifs <;> decide

end Cascade

/-! ## The two cascades -/

namespace PolicyEngine

def cascade : Cascade where
  blocking := ["irreversible_action_locked"]
  escalating := ["behavioral_anomaly", "repeated_escalation"]
  maxRisk := 0.95
  minConfidence := 0.20

theorem policyDecision_eq (violations : List String) (risk confidence : Float32) :
    policyDecision violations risk confidence = cascade.decide violations risk confidence := by
  have hblock : Cascade.Hits cascade.blocking violations ↔
      "irreversible_action_locked" ∈ violations := Cascade.hits_singleton
  have hescalate : Cascade.Hits cascade.escalating violations ↔
      "behavioral_anomaly" ∈ violations ∨ "repeated_escalation" ∈ violations := Cascade.hits_pair
  rw [Cascade.decide, Cascade.ite_outOfBounds]
  exact (if_congr hblock rfl ((if_congr hescalate rfl rfl).trans (ite_or ..))).symm

end PolicyEngine

namespace ActionValidator

def cascade : Cascade where
  blocking := ["destructive_pattern"]
  escalating := ["privilege_escalation"]
  maxRisk := 0.90
  minConfidence := 0.25

theorem finalDecision_eq (violations : List String) (risk confidence : Float32) :
    finalDecision violations risk confidence = cascade.decide violations risk confidence := by
  have hblock : Cascade.Hits cascade.blocking violations ↔
      "destructive_pattern" ∈ violations := Cascade.hits_singleton
  have hescalate : Cascade.Hits cascade.escalating violations ↔
      "privilege_escalation" ∈ violations := Cascade.hits_singleton
  rw [Cascade.decide, Cascade.ite_outOfBounds]
  exact (if_congr hblock rfl (if_congr hescalate rfl rfl)).symm

end ActionValidator

/-! ## Stricter facts -/

/-- What the policy engine is asked about. -/
structure PolicyRequest where
  context : PolicyContext
  risk : Float32
  confidence : Float32
  boundaries : RestraintBoundary

namespace PolicyRequest

def result (x : PolicyRequest) : HALResult :=
  PolicyEngine.evaluate x.context x.risk x.confidence x.boundaries

/-- The facts of `y` are stricter: no less risk, no more confidence, and the same context and
boundaries or others in which the same rules are violated and maybe more. -/
structure Stricter (x y : PolicyRequest) : Prop where
  risk : Raised x.risk y.risk
  confidence : Raised y.confidence x.confidence
  found : (y.context = x.context ∧ y.boundaries = x.boundaries) ∨
    x.result.violatedRules ⊆ y.result.violatedRules

/-- In one context and within the same boundaries the grades alone add violations. -/
theorem Stricter.subset {x y : PolicyRequest} (h : Stricter x y) :
    x.result.violatedRules ⊆ y.result.violatedRules := by
  rcases h.found with ⟨hcontext, hboundaries⟩ | hsub
  · intro name hname
    rw [result, PolicyEngine.mem_violatedRules] at hname ⊢
    rw [hcontext, hboundaries]
    simp only [PolicyEngine.rules, List.mem_cons, Prod.mk.injEq, List.not_mem_nil, or_false,
      eq_comm (a := true), Bool.and_eq_true, decide_eq_true_eq] at hname ⊢
    refine Or.imp ?_ (Or.imp_right (Or.imp_right (Or.imp_left ?_))) hname
    · exact And.imp_left h.risk.lt
    · exact And.imp_left (And.imp_right h.confidence.lt_of_lt)
  · exact hsub

/-- A restraint boundary is violated: the risk is above the maximum, the required user is
absent, or the required multi-factor is missing. -/
def BoundaryViolated (x : PolicyRequest) : Prop :=
  x.risk > x.boundaries.maximumAllowedRisk ∨
    (x.boundaries.requireUserPresence = true ∧ x.context.session.userPresent = false) ∨
    (x.boundaries.requireMultiFactor = true ∧ x.confidence < 0.92)

/-- Nothing else would ask for more than a notice. -/
def Mild (x : PolicyRequest) : Prop :=
  ¬ (x.boundaries.irreversibleActionLock = true ∧
      PolicyEngine.irreversible x.context.toHALContext = true) ∧
    ¬ x.context.behavioral.anomalyScore > 0.85 ∧ ¬ x.context.behavioral.escalationAttempts > 3 ∧
    ¬ x.risk > 0.70 ∧ ¬ x.confidence < 0.20

theorem decision_eq (x : PolicyRequest) :
    x.result.decision =
      PolicyEngine.cascade.decide x.result.violatedRules x.risk x.confidence :=
  PolicyEngine.policyDecision_eq _ _ _

theorem blocking_iff (x : PolicyRequest) :
    Cascade.Hits PolicyEngine.cascade.blocking x.result.violatedRules ↔
      x.boundaries.irreversibleActionLock = true ∧
        PolicyEngine.irreversible x.context.toHALContext = true := by
  refine Cascade.hits_singleton.trans ?_
  rw [result, PolicyEngine.mem_violatedRules, eq_comm (b := true)]
  simp [PolicyEngine.rules]

theorem escalating_iff (x : PolicyRequest) :
    Cascade.Hits PolicyEngine.cascade.escalating x.result.violatedRules ↔
      x.context.behavioral.anomalyScore > 0.85 ∨
        x.context.behavioral.escalationAttempts > 3 := by
  refine Cascade.hits_pair.trans ?_
  rw [result, PolicyEngine.mem_violatedRules, PolicyEngine.mem_violatedRules]
  simp [PolicyEngine.rules]

theorem BoundaryViolated.ne_nil {x : PolicyRequest} (h : x.BoundaryViolated) :
    x.result.violatedRules ≠ [] := by
  have hmem : ∃ name, name ∈ x.result.violatedRules := by
    simp only [result, PolicyEngine.mem_violatedRules]
    rcases h with h | ⟨hrequired, habsent⟩ | ⟨hrequired, hmissing⟩
    · exact ⟨"risk_boundary_exceeded", by simp [PolicyEngine.rules, h]⟩
    · exact ⟨"user_presence_required", by simp [PolicyEngine.rules, hrequired, habsent]⟩
    · exact ⟨"multi_factor_requirement", by simp [PolicyEngine.rules, hrequired, hmissing]⟩
  obtain ⟨name, hname⟩ := hmem
  exact List.ne_nil_of_mem hname

/-- A violated boundary is at least a notice, and a notice only when nothing else stands out. -/
theorem BoundaryViolated.decision {x : PolicyRequest} (h : x.BoundaryViolated) :
    x.result.decision ≠ .allow ∧ (x.result.decision = .notify ↔ x.Mild) := by
  rw [decision_eq, Mild, ← blocking_iff]
  by_cases hblock : Cascade.Hits PolicyEngine.cascade.blocking x.result.violatedRules
  · rw [Cascade.decide_blocking hblock]
    exact ⟨HALDecision.noConfusion, iff_of_false HALDecision.noConfusion fun hm => hm.1 hblock⟩
  by_cases hescalate : Cascade.Hits PolicyEngine.cascade.escalating x.result.violatedRules
  · rw [Cascade.decide_escalating hblock hescalate]
    refine ⟨HALDecision.noConfusion, iff_of_false HALDecision.noConfusion fun hm => ?_⟩
    rcases (escalating_iff x).mp hescalate with hanomaly | hattempts
    · exact hm.2.1 hanomaly
    · exact hm.2.2.1 hattempts
  by_cases hbounds : PolicyEngine.cascade.OutOfBounds x.risk x.confidence
  · rw [Cascade.decide_outOfBounds hescalate hbounds]
    refine ⟨HALDecision.noConfusion, iff_of_false HALDecision.noConfusion fun hm => ?_⟩
    rcases hbounds with hrisk | hconfidence
    · exact hm.2.2.2.1 (FloatText.lt_of_le_of_lt32 (by decide) hrisk)
    · exact hm.2.2.2.2 hconfidence
  rw [Cascade.decide_within hblock hescalate hbounds, if_pos h.ne_nil]
  rw [escalating_iff, not_or] at hescalate
  by_cases hconfirm : x.risk > 0.70
  · rw [if_pos hconfirm]
    exact ⟨HALDecision.noConfusion, iff_of_false HALDecision.noConfusion fun hm =>
      hm.2.2.2.1 hconfirm⟩
  · rw [if_neg hconfirm]
    refine ⟨HALDecision.noConfusion, iff_of_true rfl ?_⟩
    exact ⟨hblock, hescalate.1, hescalate.2, hconfirm, fun hc => hbounds (Or.inr hc)⟩

/-- In `y` an escalation takes the place of a block that only the bounds gave in `x`. -/
def Masked (x y : PolicyRequest) : Prop :=
  PolicyEngine.cascade.Masked x.result.violatedRules x.risk x.confidence y.result.violatedRules

end PolicyRequest

/-- What the action validator is asked about. -/
structure ValidatorRequest where
  context : HALContext
  risk : Float32
  confidence : Float32

namespace ValidatorRequest

def result (x : ValidatorRequest) : HALResult :=
  ActionValidator.validate x.context x.risk x.confidence

structure Stricter (x y : ValidatorRequest) : Prop where
  risk : Raised x.risk y.risk
  confidence : Raised y.confidence x.confidence
  found : x.result.violatedRules ⊆ y.result.violatedRules

def Masked (x y : ValidatorRequest) : Prop :=
  ActionValidator.cascade.Masked x.result.violatedRules x.risk x.confidence
    y.result.violatedRules

theorem decision_eq (x : ValidatorRequest) :
    x.result.decision =
      ActionValidator.cascade.decide x.result.violatedRules x.risk x.confidence :=
  ActionValidator.finalDecision_eq _ _ _

end ValidatorRequest

/-- `d'` is at least as strict as `d`, but when masked a block becomes an escalation. -/
def KeptStrict (masked : Prop) (d d' : HALDecision) : Prop :=
  (¬ masked → strictness d ≤ strictness d') ∧ (masked → d = .block ∧ d' = .escalate)

theorem Cascade.keptStrict (c : Cascade) {violations violations' : List String}
    {risk confidence risk' confidence' : Float32} (hsub : violations ⊆ violations')
    (hrisk : Raised risk risk') (hconfidence : Raised confidence' confidence) :
    KeptStrict (c.Masked violations risk confidence violations')
      (c.decide violations risk confidence) (c.decide violations' risk' confidence') := by
  refine ⟨(c.stricter_iff hsub hrisk hconfidence).mpr, ?_⟩
  rintro ⟨hbounds, hescalate, hescalate', hblock'⟩
  exact ⟨decide_outOfBounds hescalate hbounds, decide_escalating hblock' hescalate'⟩

/-- Both deciders keep strict under stricter facts, and the policy engine lets no violated
boundary pass unseen. -/
theorem deciders_strictness :
    (∀ x y : PolicyRequest, x.Stricter y →
        KeptStrict (x.Masked y) x.result.decision y.result.decision) ∧
      (∀ x y : ValidatorRequest, x.Stricter y →
        KeptStrict (x.Masked y) x.result.decision y.result.decision) ∧
      ∀ x : PolicyRequest, x.BoundaryViolated →
        x.result.decision ≠ .allow ∧ (x.result.decision = .notify ↔ x.Mild) := by
  refine ⟨fun x y h => ?_, fun x y h => ?_, fun x h => h.decision⟩
  · rw [x.decision_eq, y.decision_eq]
    exact Cascade.keptStrict _ h.subset h.risk h.confidence
  · rw [x.decision_eq, y.decision_eq]
    exact Cascade.keptStrict _ h.found h.risk h.confidence

/-! ## Milder than before -/

def quietContext (anomaly : Float32) : PolicyContext where
  targetResource := "/home/user/notes.txt"
  requestedAction := "open"
  severity := .low
  syscallSensitivity := .safe
  behavioral := { anomalyScore := anomaly, escalationAttempts := 0 }
  session := { userPresent := true }

def lenient : RestraintBoundary where
  maximumAllowedRisk := 0.5
  irreversibleActionLock := true
  requireUserPresence := true
  requireMultiFactor := false

def policyRequest (anomaly risk : Float32) : PolicyRequest where
  context := quietContext anomaly
  risk := risk
  confidence := 0.9
  boundaries := lenient

def validatorRequest (action : String) : ValidatorRequest where
  context := { quietContext 0 with requestedAction := action }
  risk := 0.95
  confidence := 0.9

theorem stricter_anomaly : (policyRequest 0 0.96).Stricter (policyRequest 0.9 0.96) where
  risk := Or.inl (Eq.refl (0.96 : Float32))
  confidence := Or.inl (Eq.refl (0.9 : Float32))
  found := Or.inr (by decide)

theorem stricter_risk : (policyRequest 0 0.6).Stricter (policyRequest 0 0.96) where
  risk := Or.inr (by decide)
  confidence := Or.inl (Eq.refl (0.9 : Float32))
  found := Or.inl ⟨Eq.refl (quietContext 0), Eq.refl lenient⟩

theorem stricter_sudo : (validatorRequest "open").Stricter (validatorRequest "sudo open") where
  risk := Or.inl (Eq.refl (0.95 : Float32))
  confidence := Or.inl (Eq.refl (0.9 : Float32))
  found := by decide

theorem boundaryViolated_risk : (policyRequest 0 0.6).BoundaryViolated := Or.inl (by decide)

/-- An anomaly, or a `sudo`, turns a block into an escalation; a violated boundary may be no
more than a notice. -/
theorem not_strict_anomaly :
    ((policyRequest 0 0.96).Stricter (policyRequest 0.9 0.96) ∧
        strictness (policyRequest 0.9 0.96).result.decision <
          strictness (policyRequest 0 0.96).result.decision) ∧
      ((validatorRequest "open").Stricter (validatorRequest "sudo open") ∧
        strictness (validatorRequest "sudo open").result.decision <
          strictness (validatorRequest "open").result.decision) ∧
      (policyRequest 0 0.6).BoundaryViolated ∧
        (policyRequest 0 0.6).result.decision = .notify :=
  ⟨⟨stricter_anomaly, by decide⟩, ⟨stricter_sudo, by decide⟩, boundaryViolated_risk, by decide⟩

/-- Each part at an input. -/
theorem deciders_strictness_quiet :
    KeptStrict ((policyRequest 0 0.6).Masked (policyRequest 0 0.96))
        (policyRequest 0 0.6).result.decision (policyRequest 0 0.96).result.decision ∧
      KeptStrict ((validatorRequest "open").Masked (validatorRequest "sudo open"))
        (validatorRequest "open").result.decision (validatorRequest "sudo open").result.decision ∧
      ((policyRequest 0 0.6).result.decision = .notify ↔ (policyRequest 0 0.6).Mild) :=
  ⟨deciders_strictness.1 _ _ stricter_risk, deciders_strictness.2.1 _ _ stricter_sudo,
    (deciders_strictness.2.2 _ boundaryViolated_risk).2⟩

end Hal

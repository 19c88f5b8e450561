/-
# `Cognos.Hal.BehavioralModel` — what an agent did lately

`behavioral_model.rs` keeps the last 200 observations of each agent and draws from them what
the policy engine and the risk model go by.

    history_run               in any run, an agent's history is the last 200 of its observations
    metrics_run               so its metrics and the anomaly of an hour come from these alone
    repeated_escalation_iff   the policy engine's rule fires while more than three of them are
                              attempts to escalate
-/
import Mathlib
import Cognos.Lib.Recent
import Cognos.Lib.Run
import Cognos.Hal.PolicyEngine

namespace Hal

/-- One observed agent action outcome. -/
structure ActionObservation where
  action : String
  succeeded : Bool
  wasEscalationAttempt : Bool
  hour : UInt8

/-- `BehavioralMetrics` with the fields the policy engine does not read. -/
structure AgentMetrics extends BehavioralMetrics where
  volatilityScore : Float32
  historicalStability : Float32
  recentFailures : UInt32

/-- Per-agent sliding windows. -/
abbrev BehavioralModel := AList fun _ : String => List ActionObservation

namespace BehavioralModel

/-- `WINDOW` -/
def window : Nat := 200

/-- `RECENT` -/
def recent : Nat := 20

/-- `ESTABLISHED_HOUR_RATIO` -/
def establishedHourRatio : Float32 := 0.05

def observe (m : BehavioralModel) (agentId : String) (o : ActionObservation) : BehavioralModel :=
  m.insert agentId (Recent.push window ((m.lookup agentId).getD []) o)

/-- Fraction of recent actions whose verb never appeared earlier in the window. -/
def noveltyScore (history : List ActionObservation) (recentStart : Nat) : Float32 :=
  if recentStart = 0 then 0.5
  else
    let baseline := (history.take recentStart).map (·.action)
    let recent := history.drop recentStart
    if recent = [] then 0.0
    else
      (recent.countP fun o => o.action ∉ baseline).toFloat32 / recent.length.toFloat32

/-- The neighbours of a list. -/
def pairs {α : Type} (xs : List α) : List (α × α) := xs.zip xs.tail

/-- Rate of flips between consecutive observations. -/
def volatility (history : List ActionObservation) : Float32 :=
  if history.length < 2 then 0.0
  else
    let outcomes := history.map (·.succeeded)
    ((pairs outcomes).countP fun p => p.1 != p.2).toFloat32 / (outcomes.length - 1).toFloat32

/-- The metrics of an agent nothing is known of. -/
def neutral : AgentMetrics where
  anomalyScore := 0.5
  volatilityScore := 0.5
  escalationAttempts := 0
  historicalStability := 0.5
  recentFailures := 0

/-- The metrics of a history. -/
def metricsOf (history : List ActionObservation) : AgentMetrics :=
  if history = [] then neutral
  else
    let total := history.length
    let recentStart := total - recent
    { historicalStability := (history.countP (·.succeeded)).toFloat32 / total.toFloat32
      escalationAttempts := UInt32.ofNat (history.countP (·.wasEscalationAttempt))
      recentFailures := UInt32.ofNat ((history.drop recentStart).countP (!·.succeeded))
      anomalyScore := noveltyScore history recentStart
      volatilityScore := volatility history }

def metrics (m : BehavioralModel) (agentId : String) : AgentMetrics :=
  match m.lookup agentId with
  | none => neutral
  | some history => metricsOf history

/-- How unusual the hour is in a history. -/
def timeAnomalyOf (history : List ActionObservation) (hour : UInt8) : Float32 :=
  if history = [] then 0.5
  else
    let total := history.length.toFloat32
    let atHour := (history.countP (·.hour = hour)).toFloat32
    if atHour == 0.0 then 1.0 else if atHour / total ≥ establishedHourRatio then 0.0 else 0.5

def timeAnomaly (m : BehavioralModel) (agentId : String) (hour : UInt8) : Float32 :=
  match m.lookup agentId with
  | none => 0.5
  | some history => timeAnomalyOf history hour

/-! ## Runs -/

/-- An observation of an agent. -/
abbrev Observed := String × ActionObservation

def step (m : BehavioralModel) (o : Observed) : BehavioralModel := m.observe o.1 o.2

/-- What was observed of the agent, from the first on. -/
def own (agentId : String) (os : List Observed) : List ActionObservation :=
  (os.filter fun o => o.1 = agentId).map (·.2)

theorem own_append_singleton (agentId : String) (os : List Observed) (o : Observed) :
    own agentId (os ++ [o]) =
      if o.1 = agentId then own agentId os ++ [o.2] else own agentId os := by
  by_cases h : o.1 = agentId <;> simp [own, h]

/-- In any run, the history of an agent is the last 200 of its observations. -/
theorem history_run (os : List Observed) (agentId : String) :
    ((Run.after step ∅ os).lookup agentId).getD [] = (own agentId os).rtake window := by
  induction os using List.reverseRecOn with
  | nil => simp [own]
  | append_singleton os o ih =>
      rw [Run.after_append, own_append_singleton]
      show ((observe _ o.1 o.2).lookup agentId).getD [] = _
      by_cases h : o.1 = agentId
      · subst h
        rw [if_pos rfl, observe, AList.lookup_insert, Option.getD_some, ih]
        exact Recent.push_rtake 199 (own o.1 os) o.2
      · rw [if_neg h, observe, AList.lookup_insert_ne (Ne.symm h)]
        exact ih

/-- The metrics of an agent and the anomaly of an hour come from the last 200 of its own
observations, whatever was observed before them or of the other agents. -/
theorem metrics_run (os : List Observed) (agentId : String) (hour : UInt8) :
    (Run.after step ∅ os).metrics agentId = metricsOf ((own agentId os).rtake window) ∧
      (Run.after step ∅ os).timeAnomaly agentId hour =
        timeAnomalyOf ((own agentId os).rtake window) hour := by
  rw [← history_run, metrics, timeAnomaly]
  cases (Run.after step ∅ os).lookup agentId with
  | none => exact ⟨rfl, rfl⟩
  | some history => exact ⟨rfl, rfl⟩

theorem escalationAttempts_metricsOf (history : List ActionObservation) :
    (metricsOf history).escalationAttempts =
      UInt32.ofNat (history.countP (·.wasEscalationAttempt)) := by
  unfold metricsOf
  split
  · next hnil =>
      rw [hnil]
      rfl
  · rfl

/-- The attempts to escalate are counted exactly. -/
theorem toNat_escalationAttempts (os : List Observed) (agentId : String) :
    ((Run.after step ∅ os).metrics agentId).escalationAttempts.toNat =
      ((own agentId os).rtake window).countP (·.wasEscalationAttempt) := by
  have hfew : ((own agentId os).rtake window).countP (·.wasEscalationAttempt) ≤ 200 := by
    refine Nat.le_trans List.countP_le_length ?_
    rw [Recent.length_rtake]
    exact Nat.min_le_left 200 _
  rw [(metrics_run os agentId 0).1, escalationAttempts_metricsOf, UInt32.toNat_ofNat']
  exact Nat.mod_eq_of_lt (by omega)

/-- The policy engine sees repeated escalation exactly while more than three of the last 200
observations of the agent are attempts to escalate. -/
theorem repeated_escalation_iff (os : List Observed) (agentId : String) (context : PolicyContext)
    (risk confidence : Float32) (boundaries : RestraintBoundary) :
    "repeated_escalation" ∈
        (PolicyEngine.evaluate
          { context with
            behavioral := ((Run.after step ∅ os).metrics agentId).toBehavioralMetrics }
          risk confidence boundaries).violatedRules ↔
      3 < ((own agentId os).rtake window).countP (·.wasEscalationAttempt) := by
  have hcount := toNat_escalationAttempts os agentId
  rw [PolicyEngine.mem_violatedRules, ← hcount]
  simp [PolicyEngine.rules, UInt32.lt_iff_toNat_lt]

end BehavioralModel

end Hal

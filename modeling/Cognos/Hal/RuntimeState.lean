/-
# `Cognos.Hal.RuntimeState` — what HAL keeps in memory

`runtime_state.rs`: the trust of the agents, the decisions and escalations that are active, and
the anomalies and audit events of late.  Each of them has a lock of its own, which every method
takes once, so that a run is a list of calls.

    compromised_iff     which agents are reported as compromised: recovering does not clear them
    scores_unit_iff     when all scores stay from zero to one
    recent_run          what is left of the anomalies and audit events

What decisions, escalations, anomalies and events are is left open.
-/
import Mathlib
import Cognos.Lib.FloatNan
import Cognos.Lib.Latch
import Cognos.Lib.Recent

namespace Hal

open FloatText (clampUnit32)

/-! ## The state -/

structure TrustState where
  currentScore : Float32
  historicalAverage : Float32
  decayRate : Float32
  recoveryRate : Float32
  compromiseSuspected : Bool

structure RuntimeState (Decision Anomaly Escalation Event : Type) where
  trustMap : AList fun _ : String => TrustState
  activeDecisions : AList fun _ : String => Decision
  anomalyStream : List Anomaly
  escalationState : AList fun _ : String => Escalation
  auditBuffer : List Event

namespace RuntimeState

variable {Decision Anomaly Escalation Event : Type}

def new : RuntimeState Decision Anomaly Escalation Event := ⟨∅, ∅, [], ∅, []⟩

section Methods

variable (s : RuntimeState Decision Anomaly Escalation Event)

def setTrustState (agentId : String) (trust : TrustState) :
    RuntimeState Decision Anomaly Escalation Event :=
  { s with trustMap := s.trustMap.insert agentId trust }

def getTrustState (agentId : String) : Option TrustState := s.trustMap.lookup agentId

def updateDecision (intentId : String) (decision : Decision) :
    RuntimeState Decision Anomaly Escalation Event :=
  { s with activeDecisions := s.activeDecisions.insert intentId decision }

def getDecision (intentId : String) : Option Decision := s.activeDecisions.lookup intentId

def pushAnomaly (anomaly : Anomaly) : RuntimeState Decision Anomaly Escalation Event :=
  { s with anomalyStream := Recent.pushTrim 5000 s.anomalyStream anomaly }

def recentAnomalies : List Anomaly := s.anomalyStream

def escalationActive (agentId : String) : Bool := (s.escalationState.lookup agentId).isSome

def setEscalation (agentId : String) (escalation : Escalation) :
    RuntimeState Decision Anomaly Escalation Event :=
  { s with escalationState := s.escalationState.insert agentId escalation }

def clearEscalation (agentId : String) : RuntimeState Decision Anomaly Escalation Event :=
  { s with escalationState := s.escalationState.erase agentId }

def appendAudit (event : Event) : RuntimeState Decision Anomaly Escalation Event :=
  { s with auditBuffer := Recent.pushTrim 10000 s.auditBuffer event }

def auditSnapshot : List Event := s.auditBuffer

/-- `get_mut`: the trust of an agent that is known is changed where it is. -/
def modifyTrust (agentId : String) (f : TrustState → TrustState) :
    RuntimeState Decision Anomaly Escalation Event :=
  match s.trustMap.lookup agentId with
  | some state => { s with trustMap := s.trustMap.insert agentId (f state) }
  | none => s

/-- The score an agent is left with when its trust decays. -/
def decayed (state : TrustState) (amount : Float32) : Float32 :=
  clampUnit32 (state.currentScore - amount)

def decayTrust (agentId : String) (amount : Float32) :
    RuntimeState Decision Anomaly Escalation Event :=
  s.modifyTrust agentId fun state =>
    let score := decayed state amount
    { state with
      currentScore := score
      compromiseSuspected := if score < 0.20 then true else state.compromiseSuspected }

def recoverTrust (agentId : String) (amount : Float32) :
    RuntimeState Decision Anomaly Escalation Event :=
  s.modifyTrust agentId fun state =>
    { state with currentScore := clampUnit32 (state.currentScore + amount) }

def compromisedAgents : List String :=
  (s.trustMap.entries.filter fun e => e.2.compromiseSuspected).map Sigma.fst

end Methods

/-! ## Runs -/

/-- What is called on the state. -/
inductive Call (Decision Anomaly Escalation Event : Type)
  | setTrustState (agentId : String) (trust : TrustState)
  | updateDecision (intentId : String) (decision : Decision)
  | pushAnomaly (anomaly : Anomaly)
  | setEscalation (agentId : String) (escalation : Escalation)
  | clearEscalation (agentId : String)
  | appendAudit (event : Event)
  | decayTrust (agentId : String) (amount : Float32)
  | recoverTrust (agentId : String) (amount : Float32)

def step (s : RuntimeState Decision Anomaly Escalation Event) :
    Call Decision Anomaly Escalation Event → RuntimeState Decision Anomaly Escalation Event
  | .setTrustState agentId trust => s.setTrustState agentId trust
  | .updateDecision intentId decision => s.updateDecision intentId decision
  | .pushAnomaly anomaly => s.pushAnomaly anomaly
  | .setEscalation agentId escalation => s.setEscalation agentId escalation
  | .clearEscalation agentId => s.clearEscalation agentId
  | .appendAudit event => s.appendAudit event
  | .decayTrust agentId amount => s.decayTrust agentId amount
  | .recoverTrust agentId amount => s.recoverTrust agentId amount

variable {s : RuntimeState Decision Anomaly Escalation Event} {agent : String}

@[simp] theorem getTrustState_setTrustState (agentId : String) (trust : TrustState) :
    (s.setTrustState agentId trust).getTrustState agent =
      if agent = agentId then some trust else s.getTrustState agent := by
  by_cases h : agent = agentId
  · subst h
    simp [getTrustState, setTrustState]
  · simp [getTrustState, setTrustState, h]

@[simp] theorem getTrustState_modifyTrust (agentId : String) (f : TrustState → TrustState) :
    (s.modifyTrust agentId f).getTrustState agent =
      if agent = agentId then (s.getTrustState agent).map f else s.getTrustState agent := by
  rw [modifyTrust]
  cases hknown : s.trustMap.lookup agentId with
  | none =>
      by_cases h : agent = agentId
      · subst h
        simp [getTrustState, hknown]
      · simp [h]
  | some state =>
      by_cases h : agent = agentId
      · subst h
        simp [getTrustState, hknown]
      · simp [getTrustState, h]

/-! ## Compromised agents -/

theorem mem_compromisedAgents : agent ∈ s.compromisedAgents ↔
    ∃ trust, s.getTrustState agent = some trust ∧ trust.compromiseSuspected = true := by
  rw [compromisedAgents, getTrustState]
  constructor
  · intro h
    obtain ⟨⟨a, trust⟩, hmem, rfl⟩ := List.mem_map.mp h
    obtain ⟨hmem, hflag⟩ := List.mem_filter.mp hmem
    exact ⟨trust, AList.mem_lookup_iff.mpr hmem, hflag⟩
  · rintro ⟨trust, hlookup, hflag⟩
    refine List.mem_map.mpr ⟨⟨agent, trust⟩, List.mem_filter.mpr ⟨?_, hflag⟩, rfl⟩
    exact AList.mem_lookup_iff.mp hlookup

/-- A call marks the agent: its trust is set so, or decays below a fifth. -/
def Marks (agent : String) (s : RuntimeState Decision Anomaly Escalation Event) :
    Call Decision Anomaly Escalation Event → Prop
  | .setTrustState agentId trust => agentId = agent ∧ trust.compromiseSuspected = true
  | .decayTrust agentId amount =>
      agentId = agent ∧ ∃ state, s.getTrustState agent = some state ∧ decayed state amount < 0.20
  | _ => False

/-- A call sets the trust of the agent anew. -/
def Sets (agent : String) : Call Decision Anomaly Escalation Event → Prop
  | .setTrustState agentId _ => agentId = agent
  | _ => False

theorem mem_compromisedAgents_step (call : Call Decision Anomaly Escalation Event) :
    agent ∈ (s.step call).compromisedAgents ↔
      Marks agent s call ∨ (agent ∈ s.compromisedAgents ∧ ¬ Sets agent call) := by
  simp only [mem_compromisedAgents]
  cases call with
  | setTrustState agentId trust =>
      simp only [step, getTrustState_setTrustState, Marks, Sets]
      by_cases h : agent = agentId
      · subst h
        simp
      · simp [h, Ne.symm h]
  | decayTrust agentId amount =>
      simp only [step, decayTrust, getTrustState_modifyTrust, Marks, Sets, not_false_eq_true,
        and_true]
      by_cases h : agent = agentId
      · subst h
        cases hstate : s.getTrustState agent with
        | none => simp
        | some state =>
            by_cases hlow : decayed state amount < 0.20
            · simp [hlow]
            · simp [hlow]
      · simp [h, Ne.symm h]
  | recoverTrust agentId amount =>
      simp only [step, recoverTrust, getTrustState_modifyTrust, Marks, Sets, not_false_eq_true,
        and_true, false_or]
      by_cases h : agent = agentId
      · subst h
        cases s.getTrustState agent with
        | none => simp
        | some state => simp
      · simp [h]
  | _ => simp [Marks, Sets, getTrustState, step, updateDecision, pushAnomaly, setEscalation,
      clearEscalation, appendAudit]

/-- In any run, an agent is reported as compromised when it was marked and its trust has not been
set anew since, however much of it has been recovered. -/
theorem compromised_iff (calls : List (Call Decision Anomaly Escalation Event)) (agent : String) :
    agent ∈ (Run.after step new calls).compromisedAgents ↔
      Run.Raised step (Marks agent) (Sets agent) new calls := by
  have hstep : ∀ (s : RuntimeState Decision Anomaly Escalation Event) call,
      agent ∈ (s.step call).compromisedAgents ↔
        Marks agent s call ∨ (agent ∈ s.compromisedAgents ∧ ¬ Sets agent call) :=
    fun _ call => mem_compromisedAgents_step call
  have hnone : agent ∉ (new : RuntimeState Decision Anomaly Escalation Event).compromisedAgents :=
    List.not_mem_nil
  exact Run.raised_iff (I := fun s : RuntimeState Decision Anomaly Escalation Event =>
    agent ∈ s.compromisedAgents) hstep hnone calls

/-! ## Scores -/

/-- All scores are from zero to one. -/
def Unit (s : RuntimeState Decision Anomaly Escalation Event) : Prop :=
  ∀ agent trust, s.getTrustState agent = some trust →
    0 ≤ trust.currentScore ∧ trust.currentScore ≤ 1

/-- A call sets a score from zero to one, and changes that of an agent that is known by a number
only. -/
def Sound (s : RuntimeState Decision Anomaly Escalation Event) :
    Call Decision Anomaly Escalation Event → Prop
  | .setTrustState _ trust => 0 ≤ trust.currentScore ∧ trust.currentScore ≤ 1
  | .decayTrust agentId amount => (s.getTrustState agentId).isSome = true → amount.isNaN = false
  | .recoverTrust agentId amount => (s.getTrustState agentId).isSome = true → amount.isNaN = false
  | _ => True

/-- Changing the score of one agent. -/
theorem unit_modifyTrust_iff (h : s.Unit) (agentId : String) {f : TrustState → TrustState}
    {amount : Float32}
    (hf : ∀ state, s.getTrustState agentId = some state →
      ((0 ≤ (f state).currentScore ∧ (f state).currentScore ≤ 1) ↔ amount.isNaN = false)) :
    (s.modifyTrust agentId f).Unit ↔
      ((s.getTrustState agentId).isSome = true → amount.isNaN = false) := by
  constructor
  · intro hafter hknown
    obtain ⟨state, hstate⟩ := Option.isSome_iff_exists.mp hknown
    refine (hf state hstate).mp (hafter agentId (f state) ?_)
    simp [hstate]
  · intro hnumber agent trust htrust
    by_cases hagent : agent = agentId
    · subst hagent
      cases hstate : s.getTrustState agent with
      | none => simp [hstate] at htrust
      | some state =>
          obtain rfl : f state = trust := by simpa [hstate] using htrust
          exact (hf state hstate).mpr (hnumber (by rw [hstate]; rfl))
    · exact h agent trust (by simpa [hagent] using htrust)

theorem unit_step_iff (h : s.Unit) (call : Call Decision Anomaly Escalation Event) :
    (s.step call).Unit ↔ Sound s call := by
  cases call with
  | setTrustState agentId trust =>
      constructor
      · intro hafter
        exact hafter agentId trust (by simp [step])
      · intro htrust agent state hstate
        by_cases hagent : agent = agentId
        · obtain rfl : trust = state := by simpa [step, hagent] using hstate
          exact htrust
        · exact h agent state (by simpa [step, hagent] using hstate)
  | decayTrust agentId amount =>
      refine unit_modifyTrust_iff h agentId fun state hstate => ?_
      show (0 ≤ clampUnit32 (state.currentScore - amount) ∧ _) ↔ _
      rw [← FloatText.isNaN_sub (FloatText.isFinite_of_unit32 (h agentId state hstate))]
      exact FloatText.unit_clamp_iff
  | recoverTrust agentId amount =>
      refine unit_modifyTrust_iff h agentId fun state hstate => ?_
      show (0 ≤ clampUnit32 (state.currentScore + amount) ∧ _) ↔ _
      rw [← FloatText.isNaN_add (FloatText.isFinite_of_unit32 (h agentId state hstate))]
      exact FloatText.unit_clamp_iff
  | _ => exact iff_of_true h trivial

/-- All scores are from zero to one throughout a run exactly when scores are set so, and decay and
recover by numbers, all along. -/
theorem scores_unit_iff (calls : List (Call Decision Anomaly Escalation Event)) :
    Run.Throughout step Unit new calls ↔ Run.Along step Sound new calls := by
  refine Run.throughout_invariant_iff step (fun s call h => unit_step_iff h call) ?_
  intro agent trust h
  cases h

/-! ## Anomalies and events -/

/-- The anomaly a call pushes. -/
def Call.anomaly? : Call Decision Anomaly Escalation Event → Option Anomaly
  | .pushAnomaly anomaly => some anomaly
  | _ => none

/-- The event a call appends. -/
def Call.event? : Call Decision Anomaly Escalation Event → Option Event
  | .appendAudit event => some event
  | _ => none

theorem recent_modifyTrust (agentId : String) (f : TrustState → TrustState) :
    (s.modifyTrust agentId f).recentAnomalies = s.recentAnomalies ∧
      (s.modifyTrust agentId f).auditSnapshot = s.auditSnapshot := by
  rw [modifyTrust]
  split
  · exact ⟨rfl, rfl⟩
  · exact ⟨rfl, rfl⟩

theorem recent_step (call : Call Decision Anomaly Escalation Event) :
    (s.step call).recentAnomalies =
        call.anomaly?.toList.foldl (Recent.pushTrim 5000) s.recentAnomalies ∧
      (s.step call).auditSnapshot =
        call.event?.toList.foldl (Recent.pushTrim 10000) s.auditSnapshot := by
  cases call with
  | decayTrust agentId amount => exact recent_modifyTrust agentId _
  | recoverTrust agentId amount => exact recent_modifyTrust agentId _
  | _ => exact ⟨rfl, rfl⟩

theorem recent_after (s : RuntimeState Decision Anomaly Escalation Event)
    (calls : List (Call Decision Anomaly Escalation Event)) :
    (Run.after step s calls).recentAnomalies =
        (calls.filterMap Call.anomaly?).foldl (Recent.pushTrim 5000) s.recentAnomalies ∧
      (Run.after step s calls).auditSnapshot =
        (calls.filterMap Call.event?).foldl (Recent.pushTrim 10000) s.auditSnapshot := by
  induction calls generalizing s with
  | nil => exact ⟨rfl, rfl⟩
  | cons call calls ih =>
      obtain ⟨hanomalies, hevents⟩ := recent_step (s := s) call
      have hhead : ∀ {β : Type} (f : Call Decision Anomaly Escalation Event → Option β),
          (call :: calls).filterMap f = (f call).toList ++ calls.filterMap f := by
        intro β f
        cases hf : f call <;> simp [hf]
      rw [Run.after_cons, (ih _).1, (ih _).2, hanomalies, hevents, hhead, hhead, List.foldl_append,
        List.foldl_append]
      exact ⟨rfl, rfl⟩

/-- In any run, the last 5000 anomalies and the last 10000 events are kept, in their order. -/
theorem recent_run (calls : List (Call Decision Anomaly Escalation Event)) :
    (Run.after step new calls).recentAnomalies =
        (calls.filterMap Call.anomaly?).rtake 5000 ∧
      (Run.after step new calls).auditSnapshot =
        (calls.filterMap Call.event?).rtake 10000 := by
  obtain ⟨hanomalies, hevents⟩ := recent_after new calls
  have hstream := Recent.foldl_pushTrim 5000 [] (calls.filterMap Call.anomaly?)
  have hbuffer := Recent.foldl_pushTrim 10000 [] (calls.filterMap Call.event?)
  rw [List.rtake_nil, List.nil_append] at hstream hbuffer
  exact ⟨hanomalies.trans hstream, hevents.trans hbuffer⟩

end RuntimeState

end Hal

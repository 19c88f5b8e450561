/-
# `Cognos.Orchestrator.Cancel` — what a cancel is good for

A cancel marks the task and everything reached from it as skipped, whatever state it was
in, and leaves the queue alone.  Two things follow:

  * a node that had succeeded or failed is relabelled, so nothing ended may be reached from
    the task (`kept_iff`);
  * the node comes back when it is dispatched and let through, or completed without an
    error, and no other step brings it back (`over_step`, `live_iff_of_dispatch`).
-/
import Mathlib
import Cognos.Orchestrator.Acts

namespace Orchestrator

open Relation

variable {Time : Type}

/-! ## What a cancel promises -/

/-- The node is there and ready, running or succeeded. -/
def Live (rt : Runtime) (id : TaskId) : Prop :=
  ∃ node, rt.graph.get id = some node ∧
    (node.state = .ready ∨ node.state = .running ∨ node.state = .succeeded)

/-- The node is there and has succeeded or failed. -/
def Ended (rt : Runtime) (id : TaskId) : Prop :=
  ∃ node, rt.graph.get id = some node ∧ (node.state = .succeeded ∨ node.state = .failed)

/-- The node is reached from the task and in no terminal state. -/
def Open (rt : Runtime) (task id : TaskId) : Prop :=
  ReflTransGen rt.graph.Dep task id ∧
    ∃ node, rt.graph.get id = some node ∧ TaskGraph.terminal (some node.state) = false

/-- What had ended is as it was, and what was open is over for good. -/
structure Final (Time : Type) (rt : Runtime) (task : TaskId) (rt' : Runtime) : Prop where
  kept : ∀ id, Ended rt id → rt'.graph.get id = rt.graph.get id
  gone : ∀ acts : List (Act Time), Run.Along act (fun rt a => a.Fresh rt) rt' acts →
    ∀ id, Open rt task id → ¬ Live (Run.after act rt' acts) id

/-! ## What it keeps -/

theorem kept_iff {rt rt' : Runtime} {task : TaskId} (h : Cancels rt rt' task) :
    (∀ id, Ended rt id → rt'.graph.get id = rt.graph.get id) ↔
      ∀ id, ReflTransGen rt.graph.Dep task id → ¬ Ended rt id := by
  constructor
  · rintro hkept id hreach ⟨node, hnode, hended⟩
    have hsame := hkept id ⟨node, hnode, hended⟩
    rw [h.reached id hreach, hnode, Option.map_some] at hsame
    have hstate : NodeState.skipped = node.state :=
      congrArg TaskNode.state (Option.some.inj hsame)
    rw [← hstate] at hended
    rcases hended with hended | hended <;> cases hended
  · intro hnone id hended
    exact h.other id fun hreach => hnone id hreach hended

/-! ## What comes back -/

/-- The node is skipped, or failed after that. -/
def Over (rt : Runtime) (id : TaskId) : Prop :=
  ∃ node, rt.graph.get id = some node ∧ (node.state = .skipped ∨ node.state = .failed)

theorem Over.not_live {rt : Runtime} {id : TaskId} (h : Over rt id) : ¬ Live rt id := by
  rintro ⟨node', hnode', hlive⟩
  obtain ⟨node, hnode, hover⟩ := h
  rw [hnode] at hnode'
  cases hnode'
  rcases hover with hover | hover
  · rw [hover] at hlive
    rcases hlive with h | h | h <;> cases h
  · rw [hover] at hlive
    rcases hlive with h | h | h <;> cases h

theorem over_of_open {rt rt' : Runtime} {task id : TaskId} (h : Cancels rt rt' task)
    (hopen : Open rt task id) : Over rt' id := by
  obtain ⟨hreach, node, hnode, -⟩ := hopen
  refine ⟨{ node with state := .skipped }, ?_, Or.inl rfl⟩
  rw [h.reached id hreach, hnode]
  rfl

/-- The step does not let a node of `cancelled` through, and does not complete one without an
error. -/
def Act.Spares (cancelled : TaskId → Prop) (rt : Runtime) : Act Time → Prop
  | .dispatchNode w id traceId => cancelled id → ¬ Admitted rt w id traceId
  | .complete id result => cancelled id → result.error.isNone = false
  | _ => True

/-- What is over stays so in a step that spares it. -/
theorem over_step {cancelled : TaskId → Prop} {rt : Runtime} {a : Act Time} {id : TaskId}
    (hid : cancelled id) (hover : Over rt id) (hfresh : a.Fresh rt)
    (hspares : a.Spares cancelled rt) : Over (act rt a) id := by
  obtain ⟨node, hnode, hstate⟩ := hover
  have hnotPending : node.state ≠ .pending := by
    intro hpending
    rw [hpending] at hstate
    rcases hstate with h | h <;> cases h
  obtain ⟨s, hget, hshift⟩ := act_shift a hnode hfresh
  refine ⟨{ node with state := s }, hget, ?_⟩
  show s = .skipped ∨ s = .failed
  generalize hold : node.state = old at hshift hstate hnotPending
  cases hshift with
  | keep => exact hstate
  | root => exact absurd rfl hnotPending
  | freed => exact absurd rfl hnotPending
  | runs w traceId s hadmitted => exact absurd hadmitted (hspares hid)
  | refused => exact Or.inr rfl
  | completed result s =>
      refine Or.inr ?_
      rw [stateOf, hspares hid]
      rfl
  | skipped => exact Or.inl rfl

/-- HAL's answer decides the dispatch: what is let through is dispatched. -/
theorem dispatched_of_admitted {rt : Runtime} {w : GateWorld Time} {id : TaskId} {traceId : String}
    (h : Admitted rt w id traceId) : (dispatchNode rt w id traceId).Dispatched := by
  rcases h with ⟨node, hnode, hro⟩ | ⟨client, node, hgate, hnode, hanswer⟩
  · have hro' : isSideEffecting node.sideEffect.capability = false := hro
    exact ⟨none, by simp [dispatchNode, hnode, hro']⟩
  · by_cases hse : isSideEffecting node.sideEffect.capability = true
    · rcases hanswer with ⟨response, hreq, hstatus⟩ | ⟨⟨response, hreq, hstatus⟩, resp, hwait, happ⟩
      · have hdecision : gateAction client w.freshTrace w.halReply node.sideEffect traceId =
            .ok (.granted response.grantToken response.riskScore) := by
          simp only [gateAction, hreq, interpret, hstatus, if_true]
        refine ⟨some ("granted (risk=" ++ FloatText.fixed2 response.riskScore ++ ")"), ?_⟩
        simp [dispatchNode, hnode, hse, hgate, hdecision]
      · have hdecision : gateAction client w.freshTrace w.halReply node.sideEffect traceId =
            .ok (.approvalRequired response.riskScore) := by
          simp only [gateAction, hreq, interpret, hstatus]
          rw [if_neg (by decide)]
          rfl
        refine ⟨some ("user_approved (risk=" ++ FloatText.fixed2 (FloatText.widen resp.halScore)
          ++ ", reason=" ++ reasonLabel resp.reason ++ ")"), ?_⟩
        simp [dispatchNode, hnode, hse, hgate, hdecision, awaitApproval, hwait, happ]
    · exact ⟨none, by simp [dispatchNode, hnode, hse]⟩

/-- A dispatch brings a node that was over back exactly when the node is let through. -/
theorem live_iff_of_dispatch {rt : Runtime} {w : GateWorld Time} {id : TaskId} {traceId : String}
    (hover : Over rt id) :
    Live (act rt (.dispatchNode w id traceId)) id ↔ Admitted rt w id traceId := by
  constructor
  · intro hlive
    by_contra hnot
    have hspares : (Act.dispatchNode w id traceId).Spares (· = id) rt := fun _ => hnot
    have hfresh : (Act.dispatchNode w id traceId).Fresh rt := trivial
    exact (over_step rfl hover hfresh hspares).not_live hlive
  · intro hadmitted
    have hout := dispatched_of_admitted hadmitted
    obtain ⟨node, hnode, -⟩ := hover
    cases dispatchNode_case rt w id traceId with
    | runs _ hmark _ =>
        refine ⟨{ node with state := .running }, ?_, Or.inr (Or.inl rfl)⟩
        show (dispatchNode rt w id traceId).runtime.graph.get id = _
        rw [hmark.sets id, if_pos rfl, hnode]
        rfl
    | fails hrefused _ => exact absurd hout hrefused.not_dispatched
    | errs herr _ => exact absurd hout (Dispatch.Refused.not_dispatched (.inr herr))

/-- A cancel keeps what had ended exactly when nothing ended is reached from the task; and in
every run that spares the nodes that were open, they are over for good. -/
theorem cancel_final_along {rt rt' : Runtime} {rounds : Nat} {task : TaskId}
    (h : cancel rt rounds task = some rt') :
    ((∀ id, Ended rt id → rt'.graph.get id = rt.graph.get id) ↔
      ∀ id, ReflTransGen rt.graph.Dep task id → ¬ Ended rt id) ∧
    ∀ acts : List (Act Time),
      Run.Along act (fun s a => a.Fresh s ∧ a.Spares (Open rt task) s) rt' acts →
      ∀ id, Open rt task id → ¬ Live (Run.after act rt' acts) id := by
  have hcancels := cancels_of_cancel h
  refine ⟨kept_iff hcancels, fun acts halong id hopen => ?_⟩
  have hstep : ∀ (s : Runtime) (a : Act Time), Over s id →
      a.Fresh s ∧ a.Spares (Open rt task) s → Over (act s a) id :=
    fun s a hover ha => over_step hopen hover ha.1 ha.2
  have hover := Run.invariant act hstep (over_of_open hcancels hopen) halong
  exact hover.not_live

/-! ## A cancelled node that runs -/

/-- What a submit without an intent engine and without agents sees. -/
def offline : SubmitWorld :=
  { freshTrace := .nil
    intentReply := fun _ => .error "unreachable"
    freshIds := fun k => Uuid.numbered (k + 1)
    agentWalk := .listed AgentId
    nodeWalk := .listed TaskId
    clock := fun k => k }

/-- After "open notes": a task that reads the memory is queued, one that opens waits for it. -/
def opened : Runtime :=
  (submit Runtime.new offline (Intent.new (Uuid.numbered 9) "ana" "open notes")).2

theorem length_openNotes :
    (decomposeLocally (Intent.new (Uuid.numbered 9) "ana" "open notes")).nodes.length = 2 := by
  decide +kernel

/-- HAL is not there. -/
def unanswered : GateWorld Unit :=
  ⟨.nil, fun _ => .error "unreachable", fun _ _ => .elapsed, 120⟩

/-- The first task is taken off the queue and dispatched. -/
def dispatchFirst : List (Act Unit) := [.next 0, .dispatchNode unanswered (minted offline 0) ""]

/-- The first task is ready; it is cancelled, and then runs. -/
theorem states_opened :
    (opened.graph.get (minted offline 0)).map (·.state) = some .ready ∧
    (cancel opened 2 (minted offline 0)).map (fun rt' =>
      ((Run.after act rt' dispatchFirst).graph.get (minted offline 0)).map (·.state)) =
        some (some .running) := by
  decide +kernel

theorem cancel_opened : ∃ rt', cancel opened 2 (minted offline 0) = some rt' := by
  obtain ⟨rt', hcancel, -⟩ := Option.map_eq_some_iff.mp states_opened.2
  exact ⟨rt', hcancel⟩

theorem open_opened : Open opened (minted offline 0) (minted offline 0) := by
  refine ⟨.refl, ?_⟩
  obtain ⟨node, hnode, hready⟩ := Option.map_eq_some_iff.mp states_opened.1
  refine ⟨node, hnode, ?_⟩
  rw [hready]
  rfl

/-- The queue still has the cancelled task, and a dispatch does not look at its state. -/
theorem not_final_dispatched :
    ∃ rt', cancel opened 2 (minted offline 0) = some rt' ∧
      ¬ Final Unit opened (minted offline 0) rt' := by
  obtain ⟨rt', hcancel, hrun⟩ := Option.map_eq_some_iff.mp states_opened.2
  refine ⟨rt', hcancel, fun hfinal => ?_⟩
  refine hfinal.gone dispatchFirst ⟨trivial, trivial, trivial⟩ _ open_opened ?_
  obtain ⟨node, hnode, hstate⟩ := Option.map_eq_some_iff.mp hrun
  exact ⟨node, hnode, Or.inr (Or.inl hstate)⟩

/-- Taken off the queue only, the cancelled task stays over. -/
theorem cancel_final_along_opened :
    ∃ rt', cancel opened 2 (minted offline 0) = some rt' ∧
      ¬ Live (Run.after act rt' [(.next 0 : Act Unit), .enqueueReadyDependents (fun _ => 0)
        (minted offline 0)]) (minted offline 0) := by
  obtain ⟨rt', hcancel⟩ := cancel_opened
  obtain ⟨-, hgone⟩ := cancel_final_along hcancel
  refine ⟨rt', hcancel, hgone _ ?_ _ open_opened⟩
  exact ⟨⟨trivial, trivial⟩, ⟨trivial, trivial⟩, trivial⟩

end Orchestrator

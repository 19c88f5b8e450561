/-
# `Cognos.Orchestrator.GrantedRun` — a run in which nothing goes wrong

When each dispatch of a run lets its node through and the executor has no error, the loop ends
with the plan done (`RunsPlan.complete`).  The report says success, with one record for each node
of the plan (`report_granted`).  In which order the nodes come, the edges leave open.
-/
import Mathlib
import Cognos.Orchestrator.ExecutesPlan

namespace Orchestrator

variable {Time : Type}

/-! ## The plan -/

section Plan

variable {w : SubmitWorld} {plan : DecompositionPlan}

/-- Action and target of a node of the plan. -/
def PlannedNode.pair (p : PlannedNode) : String × String := (p.subTask.action, p.subTask.target)

def TaskExecutionRecord.pair (t : TaskExecutionRecord) : String × String := (t.action, t.target)

/-- Ids that are minted for nodes, as the positions of these. -/
theorem exists_positions {ids : List TaskId}
    (h : ∀ id ∈ ids, ∃ i : Fin plan.nodes.length, id = minted w i) :
    ∃ ps : List (Fin plan.nodes.length), ids = ps.map fun i => minted w i.val := by
  induction ids with
  | nil => exact ⟨[], rfl⟩
  | cons id ids ih =>
      obtain ⟨i, rfl⟩ := h id List.mem_cons_self
      obtain ⟨ps, rfl⟩ := ih fun a ha => h a (List.mem_cons_of_mem _ ha)
      exact ⟨i :: ps, rfl⟩

theorem pairs_of_records
    (hdistinct : ∀ i < plan.nodes.length, ∀ j < plan.nodes.length, minted w i = minted w j → i = j)
    {tasks : List TaskExecutionRecord} {ps : List (Fin plan.nodes.length)}
    (h : List.Forall₂ (PlanRecords w plan) tasks (ps.map fun i => minted w i.val)) :
    tasks.map (·.pair) = ps.map fun i => (plan.nodes.get i).pair := by
  induction ps generalizing tasks with
  | nil =>
      obtain rfl := List.forall₂_nil_right_iff.mp h
      rfl
  | cons p ps ih =>
      obtain ⟨task, rest, ⟨i, hi, -, haction, htarget⟩, hrest, rfl⟩ :=
        List.forall₂_cons_right_iff.mp h
      obtain rfl : p = i := Fin.ext (hdistinct _ p.isLt _ i.isLt hi)
      rw [List.map_cons, List.map_cons, ih hrest, TaskExecutionRecord.pair, haction, htarget]
      rfl

/-- Records of all nodes, each once, have the actions and targets of the plan. -/
theorem pairs_perm
    (hdistinct : ∀ i < plan.nodes.length, ∀ j < plan.nodes.length, minted w i = minted w j → i = j)
    {tasks : List TaskExecutionRecord} {ids : List TaskId}
    (hrecords : List.Forall₂ (PlanRecords w plan) tasks ids) (hnodup : ids.Nodup)
    (hplanned : ∀ id ∈ ids, ∃ i : Fin plan.nodes.length, id = minted w i)
    (hall : ∀ i : Fin plan.nodes.length, minted w i ∈ ids) :
    (tasks.map (·.pair)).Perm (plan.nodes.map (·.pair)) := by
  obtain ⟨ps, rfl⟩ := exists_positions hplanned
  have hperm : ps.Perm (List.finRange plan.nodes.length) := by
    refine (List.perm_ext_iff_of_nodup hnodup.of_map (List.nodup_finRange _)).mpr fun i => ?_
    refine iff_of_true ?_ (List.mem_finRange i)
    obtain ⟨j, hj, heq⟩ := List.mem_map.mp (hall i)
    obtain rfl : j = i := Fin.ext (hdistinct _ j.isLt _ i.isLt heq)
    exact hj
  have hnodes : (List.finRange plan.nodes.length).map (fun i => (plan.nodes.get i).pair) =
      plan.nodes.map (·.pair) := by
    have hmap := congrArg (List.map PlannedNode.pair) (List.map_get_finRange plan.nodes)
    rw [List.map_map] at hmap
    exact hmap
  rw [pairs_of_records hdistinct hrecords, ← hnodes]
  exact hperm.map _

end Plan

/-- A plan that is submitted and run with nothing going wrong is executed, each node once. -/
theorem report_granted (rt : Runtime) (w : ExecWorld Time) (utterance userId traceId : String)
    {plan : DecompositionPlan} {root : TaskId}
    (hplan : resolveDecomposition (resetExecutionState rt) w.submit
      (Intent.new w.intentId userId utterance) = .ok plan)
    (hdistinct : ∀ i < plan.nodes.length, ∀ j < plan.nodes.length,
      minted w.submit i = minted w.submit j → i = j)
    (hsubmit : (submit (resetExecutionState rt) w.submit
      (Intent.new w.intentId userId utterance)).1 = .ok root)
    (hgrants : Grants (submitAndExecute rt w utterance userId traceId).2.2)
    (hworks : Works w.round) (hrounds : plan.nodes.length < w.rounds) :
    ∃ report, (submitAndExecute rt w utterance userId traceId).1 = some (.ok report) ∧
      report.success = true ∧
      List.Forall₂ (PlanRecords w.submit plan) report.tasks
        (executed (submitAndExecute rt w utterance userId traceId).2.2) ∧
      (report.tasks.map (·.pair)).Perm (plan.nodes.map (·.pair)) := by
  have hrun := runsPlan_of_distinct rt w utterance userId traceId hplan hdistinct
  have hreport : ∃ report, (submitAndExecute rt w utterance userId traceId).1 =
      some (.ok report) ∧ report.success = true := by
    have hends := hrun.ends hrounds
    have hempty : (resetExecutionState rt).graph = .new := rfl
    have hqueue : (resetExecutionState rt).scheduler = .new := rfl
    have hfresh := fresh_of_empty hempty hdistinct
    have hcase := submit_case (resetExecutionState rt) w.submit
      (Intent.new w.intentId userId utterance)
    clear hrun
    unfold submitAndExecute at hgrants hends ⊢
    simp only at hgrants hends ⊢
    generalize submit (resetExecutionState rt) w.submit (Intent.new w.intentId userId utterance) =
      result at *
    cases hcase with
    | noPlan e => cases hsubmit
    | stopped e => cases hsubmit
    | placed plan' m rt₁ rt₂ root' roots hplan' hwired hall hready hputs =>
        obtain rfl : plan = plan' := Except.ok.inj (hplan.symm.trans hplan')
        have hinv := jobInv_placed hempty hqueue hwired hfresh hready hputs
        rw [Option.isSome_map] at hends
        obtain ⟨tasks, hresult, hsuccess⟩ := success_of_granted hempty hwired hready hinv
          w.intentId.text hgrants hworks hends
        refine ⟨report w.intentId.text traceId tasks, ?_, hsuccess⟩
        show Option.map _ (execLoop w.round traceId w.rounds 0 rt₂ []).result = _
        rw [hresult]
        rfl
  obtain ⟨report, hreport, hsuccess⟩ := hreport
  obtain ⟨-, hsame, hall⟩ := hrun.success report hreport hsuccess
  have hrecords := hrun.records report hreport
  rw [hsame] at hrecords
  exact ⟨report, hreport, hsuccess, hrecords,
    pairs_perm hdistinct hrecords hrun.once hrun.planned fun i => (hall i).1⟩

/-! ## Plans without edges -/

/-- A plan without edges is submitted: its first node is ready. -/
theorem exists_root {rt : Runtime} {w : SubmitWorld} {intent : Intent} {plan : DecompositionPlan}
    (hempty : rt.graph = .new) (hplan : resolveDecomposition rt w intent = .ok plan)
    (hdistinct : ∀ i < plan.nodes.length, ∀ j < plan.nodes.length, minted w i = minted w j → i = j)
    (hnodes : plan.nodes ≠ []) (hedges : plan.edges = []) :
    ∃ root, (submit rt w intent).1 = .ok root := by
  have hfresh := fresh_of_empty hempty hdistinct
  obtain ⟨m, hwired, -⟩ := wired_addEdges rt w plan
  unfold submit
  rw [hplan]
  simp only
  have hadded : addEdges (addNodes w rt 0 plan.nodes).2 (addNodes w rt 0 plan.nodes).1 plan.edges =
      (.ok (), (addNodes w rt 0 plan.nodes).1) := by
    rw [hedges]
    rfl
  rw [hadded] at hwired ⊢
  have hready : minted w 0 ∈ (addNodes w rt 0 plan.nodes).1.graph.readyTasks w.nodeWalk := by
    have hnode := get_wired_new hwired hfresh ⟨0, List.length_pos_of_ne_nil hnodes⟩
    refine TaskGraph.mem_readyTasks.mpr ⟨_, hnode, rfl, fun a ha => ?_⟩
    rcases (dep_wired hwired).mp ha with hold | ⟨e, he, -⟩
    · rw [hempty, TaskGraph.dep_iff] at hold
      obtain ⟨e, he, -⟩ := hold
      exact absurd he List.not_mem_nil
    · rw [hedges, List.take_nil] at he
      exact absurd he List.not_mem_nil
  cases hroots : (addNodes w rt 0 plan.nodes).1.graph.readyTasks w.nodeWalk with
  | nil =>
      rw [hroots] at hready
      exact absurd hready List.not_mem_nil
  | cons root roots =>
      simp only [hroots]
      exact ⟨root, rfl⟩

end Orchestrator

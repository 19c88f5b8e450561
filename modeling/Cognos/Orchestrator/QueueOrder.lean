/-
# `Cognos.Orchestrator.QueueOrder` — what gets into the queue, and when

Two functions put tasks into the queue.  `enqueue_ready_dependents` wants every dependency
succeeded; `submit` takes what `ready_tasks` gives, all over the graph, and there a failed
or skipped dependency is as good as a succeeded one.

    at most once     a task that is put is no longer pending (`inv_step`)
    in order         where no submit finds a pending task whose dependencies have all ended
                     and not all well (`ordered_step`)
-/
import Mathlib
import Cognos.Orchestrator.Cancel

namespace Orchestrator

open Relation

variable {Time : Type}

/-! ## What a step puts -/

/-- The tasks whose entries are on top of what was queued before. -/
def put (rt rt' : Runtime) : List TaskId :=
  (rt'.scheduler.queue.map (·.taskId)).take
    (rt'.scheduler.queue.length - rt.scheduler.queue.length)

/-- All that was put in the queue along a run, the last first. -/
def history : Runtime → List (Act Time) → List TaskId
  | _, [] => []
  | rt, a :: acts => history (act rt a) acts ++ put rt (act rt a)

/-- What the step puts has, when it is in the queue, only succeeded dependencies. -/
def PutsInOrder (rt : Runtime) (a : Act Time) : Prop :=
  ∀ id ∈ put rt (act rt a), dependenciesSucceeded (act rt a).graph id = true

/-- Tasks are put in order along the run, and each at most once. -/
structure Ordered (rt : Runtime) (acts : List (Act Time)) : Prop where
  inOrder : Run.Along act PutsInOrder rt acts
  once : (history rt acts).Nodup

/-- A runtime with nothing submitted yet. -/
structure Idle (rt : Runtime) : Prop where
  graph : rt.graph = .new
  scheduler : rt.scheduler = .new

/-- A submit does not find a pending task whose dependencies have all ended and one of them
failed or was skipped. -/
def Act.FindsNoneStuck (rt : Runtime) : Act Time → Prop
  | .submit _ _ => ∀ id node, rt.graph.get id = some node → node.state = .pending →
      (∀ a, rt.graph.Dep a id → TaskGraph.terminal ((rt.graph.get a).map (·.state)) = true) →
      dependenciesSucceeded rt.graph id = true
  | _ => True

theorem put_eq_nil {rt rt' : Runtime}
    (h : rt'.scheduler.queue.length ≤ rt.scheduler.queue.length) : put rt rt' = [] := by
  rw [put, Nat.sub_eq_zero_of_le h, List.take_zero]

theorem put_of_puts {rt rt₁ rt' : Runtime} {ids : List TaskId} (h : Puts rt₁ rt' ids)
    (hsame : rt₁.scheduler = rt.scheduler) : put rt rt' = ids.reverse := by
  have hlen := congrArg List.length h.queue
  rw [List.length_map, List.length_append, List.length_map, List.length_reverse, hsame] at hlen
  rw [put, h.queue, hlen, Nat.add_sub_cancel]
  exact List.take_left' (List.length_reverse)

theorem length_next (rt : Runtime) (pick : Nat) :
    (act rt (.next pick : Act Time)).scheduler.queue.length ≤ rt.scheduler.queue.length := by
  simp only [act]
  cases h : rt.scheduler.next pick with
  | none => exact le_refl _
  | some p =>
      obtain ⟨entry, scheduler⟩ := p
      show scheduler.queue.length ≤ _
      rw [(next_eq_some h).2]
      exact List.length_erase_le

/-- What a step puts, and out of what. -/
inductive PutCase (rt : Runtime) : Act Time → Prop
  | nothing (a : Act Time) (hput : put rt (act rt a) = []) : PutCase rt a
  | roots (w : SubmitWorld) (intent : Intent) (plan : DecompositionPlan) (m : Nat)
      (rt₁ : Runtime) (ids : List TaskId) (hplan : resolveDecomposition rt w intent = .ok plan)
      (hwired : Wired rt w plan m rt₁) (hready : rt₁.graph.readyTasks w.nodeWalk = ids)
      (hputs : Puts rt₁ (submit rt w intent).2 ids)
      (hput : put rt (submit rt w intent).2 = ids.reverse) : PutCase rt (.submit w intent)
  | freed (clock : Nat → Nat) (completed : TaskId) (ids : List TaskId)
      (hputs : Puts rt (enqueueReadyDependents clock rt completed) ids)
      (hdeps : ∀ id ∈ ids, dependenciesSucceeded rt.graph id = true)
      (hput : put rt (enqueueReadyDependents clock rt completed) = ids.reverse) :
      PutCase rt (.enqueueReadyDependents clock completed)

/-- A step that leaves no longer queue puts nothing. -/
theorem PutCase.quiet {rt : Runtime} {a : Act Time}
    (h : (act rt a).scheduler.queue.length ≤ rt.scheduler.queue.length) : PutCase rt a :=
  .nothing a (put_eq_nil h)

theorem putCase_submit (rt : Runtime) (w : SubmitWorld) (intent : Intent) :
    PutCase rt (.submit w intent : Act Time) := by
  have hcase := submit_case rt w intent
  have hquiet : put rt (submit rt w intent).2 = [] → PutCase rt (.submit w intent : Act Time) :=
    PutCase.nothing (.submit w intent)
  have hroots : ∀ plan m rt₁ ids, resolveDecomposition rt w intent = .ok plan →
      Wired rt w plan m rt₁ → rt₁.graph.readyTasks w.nodeWalk = ids →
      Puts rt₁ (submit rt w intent).2 ids → put rt (submit rt w intent).2 = ids.reverse →
      PutCase rt (.submit w intent : Act Time) := PutCase.roots w intent
  generalize submit rt w intent = result at hcase hquiet hroots
  cases hcase with
  | noPlan e hplan => exact hquiet (put_eq_nil (le_refl _))
  | stopped e plan m rt' hplan hwired => exact hquiet (put_eq_nil (by rw [hwired.scheduler]))
  | placed plan m rt' rt'' root roots hplan hwired hall hready hputs =>
      exact hroots plan m rt' _ hplan hwired hready hputs (put_of_puts hputs hwired.scheduler)

theorem put_case (rt : Runtime) (a : Act Time) : PutCase rt a := by
  cases a with
  | submit w intent => exact putCase_submit rt w intent
  | next pick => exact .quiet (length_next rt pick)
  | dispatchNode w id traceId =>
      refine .quiet (le_of_eq ?_)
      show (dispatchNode rt w id traceId).runtime.scheduler.queue.length = _
      cases dispatchNode_case rt w id traceId with
      | runs hout hmark hwhy => rw [hmark.scheduler]
      | fails hout hmark => rw [hmark.scheduler]
      | errs hout hsame => rw [hsame]
  | complete id result => exact .quiet (le_refl _)
  | enqueueReadyDependents clock completed =>
      obtain ⟨ids, hputs, hmem⟩ := puts_enqueueReadyDependents clock rt completed
      exact .freed clock completed ids hputs (fun id hid => ((hmem id).mp hid).2.1)
        (put_of_puts hputs rfl)
  | cancel rounds task =>
      refine .quiet (le_of_eq ?_)
      show ((cancel rt rounds task).getD rt).scheduler.queue.length = _
      cases hcancel : cancel rt rounds task with
      | none => rfl
      | some rt' => rw [Option.getD_some, (cancels_of_cancel hcancel).scheduler]

/-! ## Well-formed graphs -/

theorem wf_complete {rt : Runtime} (id : TaskId) (result : TaskResult) (hwf : rt.graph.Wf) :
    (complete rt id result).graph.Wf := by
  have hmark := marks_setState rt id (stateOf result)
  exact hwf.relabel hmark.edges hmark.sets.relabels

/-- Every step keeps the graph well formed. -/
theorem wf_act {rt : Runtime} (a : Act Time) (hwf : rt.graph.Wf) : (act rt a).graph.Wf := by
  cases a with
  | submit w intent =>
      have hcase := submit_case rt w intent
      show (submit rt w intent).2.graph.Wf
      generalize submit rt w intent = result at hcase
      cases hcase with
      | noPlan e hplan => exact hwf
      | stopped e plan m rt' hplan hwired => exact hwired.wf hwf
      | placed plan m rt' rt'' root roots hplan hwired hall hready hputs =>
          exact (hwired.wf hwf).relabel hputs.edges hputs.relabels
  | next pick =>
      rw [graph_next]
      exact hwf
  | dispatchNode w id traceId =>
      cases dispatchNode_case rt w id traceId with
      | runs hout hmark hwhy => exact hwf.relabel hmark.edges hmark.sets.relabels
      | fails hout hmark => exact hwf.relabel hmark.edges hmark.sets.relabels
      | errs hout hsame => exact (congrArg (fun s : Runtime => s.graph.Wf) hsame).mpr hwf
  | complete id result => exact wf_complete id result hwf
  | enqueueReadyDependents clock completed =>
      obtain ⟨ids, hputs, -⟩ := puts_enqueueReadyDependents clock rt completed
      exact hwf.relabel hputs.edges hputs.relabels
  | cancel rounds task =>
      show ((cancel rt rounds task).getD rt).graph.Wf
      cases hcancel : cancel rt rounds task with
      | none => exact hwf
      | some rt' =>
          have hcancels := cancels_of_cancel hcancel
          exact hwf.relabel hcancels.edges hcancels.relabels

/-! ## At most once -/

/-- What was put is there and no longer pending, and was put once. -/
structure Inv (rt : Runtime) (hist : List TaskId) : Prop where
  wf : rt.graph.Wf
  left : ∀ id ∈ hist, ∃ node, rt.graph.get id = some node ∧ node.state ≠ .pending
  once : hist.Nodup

/-- No step makes a node pending again. -/
theorem Shift.not_pending {rt : Runtime} {id : TaskId} {a : Act Time} {s s' : NodeState}
    (h : Shift rt id a s s') (hs : s ≠ .pending) : s' ≠ .pending := by
  cases h with
  | keep => exact hs
  | root => exact absurd rfl hs
  | freed => exact absurd rfl hs
  | runs => decide
  | refused => decide
  | completed result s =>
      unfold stateOf
      split <;> decide
  | skipped => decide

/-- What is put out of a state in which old nodes are as they were: it was pending before, if
it was there, and is not now. -/
theorem Puts.pending_before {rt rt₁ rt' : Runtime} {ids : List TaskId} (h : Puts rt₁ rt' ids)
    (hold : ∀ id node, rt.graph.get id = some node → rt₁.graph.get id = some node) :
    ids.reverse.Nodup ∧ ∀ id ∈ ids.reverse,
      (∀ node, rt.graph.get id = some node → node.state = .pending) ∧
        ∃ node, rt'.graph.get id = some node ∧ node.state ≠ .pending := by
  refine ⟨List.nodup_reverse.mpr h.nodup, fun id hid => ?_⟩
  rw [List.mem_reverse] at hid
  constructor
  · intro node hnode
    obtain ⟨node', hnode', hpending⟩ := h.pending id hid
    rw [hold id node hnode] at hnode'
    cases hnode'
    exact hpending
  · obtain ⟨node, hnode, hready⟩ := h.ready hid
    exact ⟨node, hnode, by rw [hready]; decide⟩

/-- What a step puts was pending before, if it was there, and is not after. -/
theorem put_pending {rt : Runtime} {a : Act Time} (hfresh : a.Fresh rt) :
    (put rt (act rt a)).Nodup ∧ ∀ id ∈ put rt (act rt a),
      (∀ node, rt.graph.get id = some node → node.state = .pending) ∧
        ∃ node, (act rt a).graph.get id = some node ∧ node.state ≠ .pending := by
  cases put_case rt a with
  | nothing a hput =>
      rw [hput]
      exact ⟨.nil, fun id hid => absurd hid List.not_mem_nil⟩
  | roots w intent plan m rt₁ ids hplan hwired hready hputs hput =>
      rw [show put rt (act rt (.submit w intent : Act Time)) = ids.reverse from hput]
      exact hputs.pending_before fun id node => get_wired_old hwired (hfresh plan hplan)
  | freed clock completed ids hputs hdeps hput =>
      rw [show put rt (act rt (.enqueueReadyDependents clock completed : Act Time)) =
        ids.reverse from hput]
      exact hputs.pending_before fun id node hnode => hnode

theorem inv_step {rt : Runtime} {hist : List TaskId} {a : Act Time} (h : Inv rt hist)
    (hfresh : a.Fresh rt) : Inv (act rt a) (put rt (act rt a) ++ hist) := by
  obtain ⟨hnodup, hput⟩ := put_pending hfresh
  refine ⟨wf_act a h.wf, ?_, ?_⟩
  · intro id hid
    rcases List.mem_append.mp hid with hid | hid
    · exact (hput id hid).2
    · obtain ⟨node, hnode, hstate⟩ := h.left id hid
      obtain ⟨s, hget, hshift⟩ := act_shift a hnode hfresh
      exact ⟨_, hget, hshift.not_pending hstate⟩
  · refine hnodup.append h.once ?_
    intro id hnew hold
    obtain ⟨node, hnode, hstate⟩ := h.left id hold
    exact hstate ((hput id hnew).1 node hnode)

/-- Along a run of steps that mint new ids, nothing is put twice. -/
theorem inv_along {rt : Runtime} {hist : List TaskId} {acts : List (Act Time)} (h : Inv rt hist)
    (halong : Run.Along act (fun s a => a.Fresh s) rt acts) :
    Inv (Run.after act rt acts) (history rt acts ++ hist) := by
  induction acts generalizing rt hist with
  | nil => exact h
  | cons a acts ih =>
      have hrest := ih (inv_step h halong.1) halong.2
      rw [history, List.append_assoc]
      exact hrest

/-! ## In order -/

section Wired

variable {rt rt₁ : Runtime} {w : SubmitWorld} {plan : DecompositionPlan} {m : Nat}

/-- A task that is ready after the wiring has only succeeded dependencies, if none was stuck
before. -/
theorem dependenciesSucceeded_wired (hwf : rt.graph.Wf)
    (hfresh : FreshIds rt w plan.nodes.length) (hwired : Wired rt w plan m rt₁)
    (hstuck : ∀ id node, rt.graph.get id = some node → node.state = .pending →
      (∀ a, rt.graph.Dep a id → TaskGraph.terminal ((rt.graph.get a).map (·.state)) = true) →
      dependenciesSucceeded rt.graph id = true)
    {id : TaskId} {node : TaskNode} (hnode : rt₁.graph.get id = some node)
    (hpending : node.state = .pending)
    (hterminal : ∀ a, rt₁.graph.Dep a id →
      TaskGraph.terminal ((rt₁.graph.get a).map (·.state)) = true) :
    dependenciesSucceeded rt₁.graph id = true := by
  rw [dependenciesSucceeded_iff]
  intro a ha
  rcases (dep_wired hwired).mp ha with hold | ⟨e, he, rfl, hdst⟩
  · -- an old edge: both ends were there before, and are as they were
    obtain ⟨hsrc, hdst⟩ := hwf.joined a id hold
    obtain ⟨node', hnode'⟩ := Option.isSome_iff_exists.mp hdst
    rw [get_wired_old hwired hfresh hnode'] at hnode
    cases hnode
    have hsame : ∀ b, rt.graph.Dep b id → rt₁.graph.get b = rt.graph.get b := by
      intro b hb
      obtain ⟨n, hn⟩ := Option.isSome_iff_exists.mp (hwf.joined b id hb).1
      rw [hn]
      exact get_wired_old hwired hfresh hn
    have hall := hstuck id node hnode' hpending fun b hb => by
      rw [← hsame b hb]
      exact hterminal b ((dep_wired hwired).mpr (Or.inl hb))
    rw [hsame a hold]
    exact dependenciesSucceeded_iff.mp hall a hold
  · -- an edge of the plan: its source is pending and not terminal
    have hsrc := hterminal _ ha
    rw [get_wired_new hwired hfresh e.1] at hsrc
    cases hsrc

end Wired

/-- What a step of a well-formed runtime puts is in order, when the step finds nothing stuck. -/
theorem ordered_step {rt : Runtime} {a : Act Time} (hwf : rt.graph.Wf) (hfresh : a.Fresh rt)
    (hstuck : a.FindsNoneStuck rt) : PutsInOrder rt a := by
  intro id hid
  cases put_case rt a with
  | nothing a hput =>
      rw [hput] at hid
      cases hid
  | roots w intent plan m rt₁ ids hplan hwired hready hputs hput =>
      have hid : id ∈ put rt (submit rt w intent).2 := hid
      rw [hput, List.mem_reverse, ← hready] at hid
      show dependenciesSucceeded (submit rt w intent).2.graph id = true
      rw [hputs.dependenciesSucceeded_eq]
      obtain ⟨node, hnode, hpending, hterminal⟩ := TaskGraph.mem_readyTasks.mp hid
      rw [(hwired.wf hwf).keyed id node hnode] at hterminal
      exact dependenciesSucceeded_wired hwf (hfresh plan hplan) hwired hstuck hnode hpending
        hterminal
  | freed clock completed ids hputs hdeps hput =>
      have hid : id ∈ put rt (enqueueReadyDependents clock rt completed) := hid
      rw [hput, List.mem_reverse] at hid
      show dependenciesSucceeded (enqueueReadyDependents clock rt completed).graph id = true
      rw [hputs.dependenciesSucceeded_eq]
      exact hdeps id hid

theorem Idle.inv {rt : Runtime} (h : Idle rt) : Inv rt [] where
  wf := by
    rw [h.graph]
    exact TaskGraph.wf_new
  left id hid := absurd hid List.not_mem_nil
  once := .nil

/-- From an idle runtime, along steps that mint new ids and find nothing stuck, tasks are put
in order and each at most once. -/
theorem ordered_along {rt : Runtime} (hidle : Idle rt) {acts : List (Act Time)}
    (halong : Run.Along act (fun s a => a.Fresh s ∧ a.FindsNoneStuck s) rt acts) :
    Ordered rt acts := by
  have hfresh : Run.Along act (fun s a => a.Fresh s) rt acts :=
    Run.Along.mono act (fun s a h => h.1) halong
  refine ⟨?_, ?_⟩
  · have hwf : ∀ (acts : List (Act Time)) (s : Runtime), s.graph.Wf →
        Run.Along act (fun s a => a.Fresh s ∧ a.FindsNoneStuck s) s acts →
        Run.Along act PutsInOrder s acts := by
      intro acts
      induction acts with
      | nil => exact fun _ _ _ => trivial
      | cons a acts ih =>
          intro s hs h
          exact ⟨ordered_step hs h.1.1 h.1.2, ih _ (wf_act a hs) h.2⟩
    exact hwf acts rt hidle.inv.wf halong
  · have honce := (inv_along hidle.inv hfresh).once
    rw [List.append_nil] at honce
    exact honce

/-! ## A second submit -/

/-- "open notes", for which there are two tasks: look up, then open. -/
def openNotes : Intent := Intent.new (Uuid.numbered 9) "ana" "open notes"

/-- The next submit, with the next two ids. -/
def later : SubmitWorld := { offline with freshIds := fun k => Uuid.numbered (k + 3) }

theorem fresh_openNotes {rt : Runtime} {w : SubmitWorld} (hclient : rt.intentClient = none)
    (hfirst : rt.graph.get (minted w 0) = none) (hsecond : rt.graph.get (minted w 1) = none)
    (hne : minted w 0 ≠ minted w 1) : (Act.submit w openNotes : Act Time).Fresh rt := by
  intro plan hplan
  rw [resolveDecomposition, hclient] at hplan
  have hlength : plan.nodes.length = 2 := by
    cases hplan
    exact length_openNotes
  rw [hlength]
  constructor
  · intro i hi
    match i, hi with
    | 0, _ => exact hfirst
    | 1, _ => exact hsecond
  · intro i hi j hj heq
    match i, hi, j, hj with
    | 0, _, 0, _ => rfl
    | 1, _, 1, _ => rfl
    | 0, _, 1, _ => exact absurd heq hne
    | 1, _, 0, _ => exact absurd heq.symm hne

theorem ordered_along_openNotes : Ordered Runtime.new [(.submit offline openNotes : Act Unit)] := by
  refine ordered_along ⟨rfl, rfl⟩ ⟨⟨?_, ?_⟩, trivial⟩
  · exact fresh_openNotes rfl rfl rfl (by decide)
  · intro id node hnode
    cases hnode

/-- The look-up fails; then "open notes" is submitted once more. -/
def openedAgain : List (Act Unit) :=
  [.submit offline openNotes, .next 0, .dispatchNode unanswered (minted offline 0) "",
    .complete (minted offline 0) ⟨.null, some "no memory"⟩, .submit later openNotes]

theorem states_openedAgain :
    ((Run.after act Runtime.new (openedAgain.take 4)).intentClient.isNone = true ∧
      ((Run.after act Runtime.new (openedAgain.take 4)).graph.get (minted later 0)).isNone = true ∧
      ((Run.after act Runtime.new (openedAgain.take 4)).graph.get
        (minted later 1)).isNone = true) ∧
    (put (Run.after act Runtime.new (openedAgain.take 4))
      (Run.after act Runtime.new openedAgain)).contains (minted offline 1) = true ∧
    dependenciesSucceeded (Run.after act Runtime.new openedAgain).graph
      (minted offline 1) = false := by
  decide +kernel

/-- The ids of that run are new. -/
theorem fresh_openedAgain : Run.Along act (fun s a => a.Fresh s) Runtime.new openedAgain := by
  obtain ⟨⟨hclient, hnew⟩, -⟩ := states_openedAgain
  refine ⟨fresh_openNotes rfl rfl rfl (by decide), trivial, trivial, trivial, ?_, trivial⟩
  exact fresh_openNotes (Option.isNone_iff_eq_none.mp hclient) (Option.isNone_iff_eq_none.mp hnew.1)
    (Option.isNone_iff_eq_none.mp hnew.2) (by decide)

/-- The second submit puts the first one's task that waits for the failed one. -/
theorem not_ordered_failed :
    Run.Along act (fun s a => a.Fresh s) Runtime.new openedAgain ∧
      ¬ Ordered Runtime.new openedAgain := by
  refine ⟨fresh_openedAgain, fun h => ?_⟩
  obtain ⟨-, -, -, -, hlast, -⟩ := h.inOrder
  obtain ⟨-, hput, hfailed⟩ := states_openedAgain
  have hdeps := hlast (minted offline 1) (List.contains_iff_mem.mp hput)
  exact Bool.false_ne_true (hfailed.symm.trans hdeps)

end Orchestrator

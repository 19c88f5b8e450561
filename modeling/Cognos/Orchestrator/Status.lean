/-
# `Cognos.Orchestrator.Status` — the status of a task

`status` of `runtime.rs` reduces the states of a task and of all that is reached from it to
one.  `collect_descendant_states` meets a node once for each way that leads to it and does not
remember where it has been: that it ends is owed to the graph, which has no cycle.

    mem_collect      which states are collected, whatever the ways to them
    exists_collect   the recursion ends, and does so at every greater depth
    reduce_eq        the reduction asks which states there are, not how often or in what order
    status_built     whatever calls build: the status is the documented one
-/
import Mathlib
import Cognos.Orchestrator.GraphRuns

namespace Orchestrator

open Relation

inductive TaskStatus
  | pending | running | awaitingHal | succeeded | failed | cancelled
  deriving DecidableEq

/-- The status of a list of states that is not empty. -/
def reduceStates (states : List NodeState) : TaskStatus :=
  if .failed ∈ states then .failed
  else if .skipped ∈ states then .cancelled
  else if states.any fun s => s = .running || s = .ready then .running
  else if .awaitingHal ∈ states then .awaitingHal
  else if states.all (· = .succeeded) then .succeeded
  else .pending

namespace TaskGraph

/-- The states of all that is reached from a task, behind those collected before; none where
the recursion is not done at this depth. -/
def collectDescendantStates (g : TaskGraph) :
    Nat → TaskId → List NodeState → Option (List NodeState)
  | 0, _, _ => none
  | depth + 1, taskId, states =>
      if (g.get taskId).isSome then
        (g.edges.filter (·.src = taskId)).foldlM (fun states e =>
          match g.get e.dst with
          | some dep => collectDescendantStates g depth e.dst (states ++ [dep.state])
          | none => some states) states
      else some states

/-- The states of a task and of all that is reached from it; of an unknown task, no state. -/
def collected (g : TaskGraph) (depth : Nat) (task : TaskId) : Option (List NodeState) :=
  match g.get task with
  | some node => g.collectDescendantStates depth task [node.state]
  | none => some []

/-- The aggregate status of a task and its descendants; none where the recursion is not done. -/
def status (g : TaskGraph) (depth : Nat) (task : TaskId) : Option TaskStatus := do
  let states ← g.collected depth task
  return if states = [] then .pending else reduceStates states

/-! ## Sets of states -/

/-- The states of a task and of all that is reached from it. -/
def statesFrom (g : TaskGraph) (task : TaskId) : Set NodeState :=
  { s | ∃ id node, ReflTransGen g.Dep task id ∧ g.get id = some node ∧ node.state = s }

end TaskGraph

open Classical in
/-- The status of a set of states: failed, else cancelled, else running, else waiting for HAL,
else succeeded where all have, else pending. -/
noncomputable def aggregate (states : Set NodeState) : TaskStatus :=
  if .failed ∈ states then .failed
  else if .skipped ∈ states then .cancelled
  else if .running ∈ states ∨ .ready ∈ states then .running
  else if .awaitingHal ∈ states then .awaitingHal
  else if states = {.succeeded} then .succeeded
  else .pending

/-- Of a list, the reduction sees the set of its members. -/
theorem reduce_eq (states : List NodeState) :
    (if states = [] then .pending else reduceStates states) = aggregate { s | s ∈ states } := by
  have hrunning : (states.any fun s => s = .running || s = .ready) = true ↔
      .running ∈ { s | s ∈ states } ∨ .ready ∈ { s | s ∈ states } := by
    rw [List.any_eq_true]
    constructor
    · rintro ⟨s, hs, hrun⟩
      rcases Bool.or_eq_true_iff.mp hrun with heq | heq
      · exact .inl (of_decide_eq_true heq ▸ hs)
      · exact .inr (of_decide_eq_true heq ▸ hs)
    · rintro (hs | hs)
      · exact ⟨_, hs, rfl⟩
      · exact ⟨_, hs, rfl⟩
  have hall (hne : states ≠ []) : (states.all (· = .succeeded)) = true ↔
      { s | s ∈ states } = {.succeeded} := by
    rw [List.all_eq_true]
    constructor
    · intro h
      refine Set.Subset.antisymm (fun s hs => of_decide_eq_true (h s hs)) ?_
      rintro _ rfl
      obtain ⟨s, hs⟩ := List.exists_mem_of_ne_nil _ hne
      exact of_decide_eq_true (h s hs) ▸ hs
    · intro h s hs
      exact decide_eq_true (Set.mem_singleton_iff.mp (h ▸ hs : s ∈ ({.succeeded} : Set _)))
  by_cases hempty : states = []
  · have hnone : { s | s ∈ states } ≠ {NodeState.succeeded} := by
      intro h
      have hs : NodeState.succeeded ∈ { s | s ∈ states } := h ▸ Set.mem_singleton _
      rw [hempty] at hs
      cases hs
    rw [if_pos hempty, aggregate, if_neg, if_neg, if_neg, if_neg, if_neg hnone]
    · rw [hempty]
      exact List.not_mem_nil
    · rw [hempty]
      rintro (h | h)
      · cases h
      · cases h
    · rw [hempty]
      exact List.not_mem_nil
    · rw [hempty]
      exact List.not_mem_nil
  · rw [if_neg hempty, reduceStates, aggregate]
    simp only [hrunning, hall hempty, Set.mem_ofPred_eq]
    split_ifs
    all_goals rfl

/-! ## Walks of the recursion -/

section Folds

variable {σ α β : Type} {f : List σ → α → Option (List σ)} {as : List α}

/-- What a fold collects, where each step says what it adds. -/
theorem mem_foldlM {adds : α → σ → Prop}
    (hadds : ∀ a ∈ as, ∀ old new, f old a = some new → ∀ s, s ∈ new ↔ s ∈ old ∨ adds a s)
    {old new : List σ} (h : as.foldlM f old = some new) (s : σ) :
    s ∈ new ↔ s ∈ old ∨ ∃ a ∈ as, adds a s := by
  induction as generalizing old with
  | nil =>
      obtain rfl := Option.some.inj h
      simp
  | cons a as ih =>
      obtain ⟨mid, hmid, hrest⟩ := Option.bind_eq_some_iff.mp h
      rw [ih (fun b hb => hadds b (List.mem_cons_of_mem _ hb)) hrest,
        hadds a List.mem_cons_self old mid hmid, or_assoc]
      simp only [List.mem_cons, exists_eq_or_imp]

theorem exists_foldlM (hstep : ∀ a ∈ as, ∀ old, ∃ new, f old a = some new) (old : List σ) :
    ∃ new, as.foldlM f old = some new := by
  induction as generalizing old with
  | nil => exact ⟨old, rfl⟩
  | cons a as ih =>
      obtain ⟨mid, hmid⟩ := hstep a List.mem_cons_self old
      obtain ⟨new, hnew⟩ := ih (fun b hb => hstep b (List.mem_cons_of_mem _ hb)) mid
      exact ⟨new, Option.bind_eq_some_iff.mpr ⟨mid, hmid, hnew⟩⟩

end Folds

namespace TaskGraph

variable {g : TaskGraph}

theorem mem_collect (hg : g.Wf) {depth : Nat} {task : TaskId} {states found : List NodeState}
    (h : g.collectDescendantStates depth task states = some found) (s : NodeState) :
    s ∈ found ↔ s ∈ states ∨
      ∃ id node, TransGen g.Dep task id ∧ g.get id = some node ∧ node.state = s := by
  induction depth generalizing task states found s with
  | zero => cases h
  | succ depth ih =>
      rw [collectDescendantStates] at h
      split_ifs at h with hnode
      · -- an edge adds the state of its end and what is below that
        have hadds : ∀ e ∈ g.edges.filter (·.src = task), ∀ old new,
            (match g.get e.dst with
              | some dep => g.collectDescendantStates depth e.dst (old ++ [dep.state])
              | none => some old) = some new →
            ∀ s, s ∈ new ↔ s ∈ old ∨ ∃ id node, ReflTransGen g.Dep e.dst id ∧
              g.get id = some node ∧ node.state = s := by
          intro e he old new hnew s
          obtain ⟨hedge, -⟩ := List.mem_filter.mp he
          obtain ⟨dep, hdep⟩ := Option.isSome_iff_exists.mp (hg.joined _ _ (dep_of_mem hedge)).2
          simp only [hdep] at hnew
          rw [ih hnew, List.mem_append, List.mem_singleton, or_assoc]
          refine or_congr Iff.rfl ?_
          constructor
          · rintro (rfl | ⟨id, node, hway, hid, hs⟩)
            · exact ⟨e.dst, dep, .refl, hdep, rfl⟩
            · exact ⟨id, node, hway.to_reflTransGen, hid, hs⟩
          · rintro ⟨id, node, hway, hid, hs⟩
            rcases reflTransGen_iff_eq_or_transGen.mp hway with rfl | hway
            · rw [hdep] at hid
              obtain rfl := Option.some.inj hid
              exact .inl hs.symm
            · exact .inr ⟨id, node, hway, hid, hs⟩
        rw [mem_foldlM hadds h s]
        refine or_congr Iff.rfl ?_
        constructor
        · rintro ⟨e, he, id, node, hway, hid, hs⟩
          obtain ⟨hedge, hsrc⟩ := List.mem_filter.mp he
          have harc : g.Dep task e.dst := of_decide_eq_true hsrc ▸ dep_of_mem hedge
          exact ⟨id, node, .head' harc hway, hid, hs⟩
        · rintro ⟨id, node, hway, hid, hs⟩
          obtain ⟨b, harc, hrest⟩ := TransGen.head'_iff.mp hway
          obtain ⟨e, he, hsrc, rfl⟩ := dep_iff.mp harc
          exact ⟨e, List.mem_filter.mpr ⟨he, decide_eq_true hsrc⟩, id, node, hrest, hid, hs⟩
      · -- an unknown task has no edges
        obtain rfl := Option.some.inj h
        refine ⟨Or.inl, fun hs => hs.resolve_right ?_⟩
        rintro ⟨id, node, hway, -, -⟩
        obtain ⟨b, harc, -⟩ := TransGen.head'_iff.mp hway
        exact hnode (hg.joined _ _ harc).1

/-- Without a cycle the recursion ends, and deeper it ends as well. -/
theorem exists_collect (hg : g.Wf) (task : TaskId) :
    ∃ depth, ∀ more ≥ depth, ∀ states, ∃ found,
      g.collectDescendantStates more task states = some found := by
  induction task using (Digraph.Arc.wellFounded_flip hg.acyclic).induction with
  | _ task ih =>
      -- one depth for all edges out of the task
      have hbound : ∀ es : List Edge, (∀ e ∈ es, g.Dep task e.dst) →
          ∃ depth, ∀ more ≥ depth, ∀ e ∈ es, ∀ states, ∃ found,
            g.collectDescendantStates more e.dst states = some found := by
        intro es
        induction es with
        | nil => exact fun _ => ⟨0, fun _ _ e he => absurd he List.not_mem_nil⟩
        | cons e es ihes =>
            intro hes
            obtain ⟨he, hes⟩ := List.forall_mem_cons.mp hes
            obtain ⟨first, hfirst⟩ := ih e.dst he
            obtain ⟨rest, hrest⟩ := ihes hes
            refine ⟨max first rest, fun more hmore => List.forall_mem_cons.mpr ⟨?_, ?_⟩⟩
            · exact hfirst more ((le_max_left _ _).trans hmore)
            · exact hrest more ((le_max_right _ _).trans hmore)
      obtain ⟨depth, hdepth⟩ := hbound (g.edges.filter (·.src = task)) fun e he => by
        obtain ⟨hedge, hsrc⟩ := List.mem_filter.mp he
        exact of_decide_eq_true hsrc ▸ dep_of_mem hedge
      refine ⟨depth + 1, fun more hmore states => ?_⟩
      obtain ⟨more, rfl⟩ := Nat.exists_eq_add_of_le' (Nat.one_le_of_lt hmore)
      rw [collectDescendantStates]
      split_ifs
      · refine exists_foldlM (fun e he old => ?_) states
        cases hdst : g.get e.dst with
        | none => exact ⟨old, rfl⟩
        | some dep => exact hdepth more (Nat.le_of_succ_le_succ hmore) e he _
      · exact ⟨states, rfl⟩

/-- In a well-formed graph the status is what its documentation makes of the states of all that
is reached. -/
theorem status_eq (hg : g.Wf) (task : TaskId) :
    ∃ depth, ∀ more ≥ depth, g.status more task = some (aggregate (g.statesFrom task)) := by
  obtain ⟨depth, hdepth⟩ := exists_collect hg task
  refine ⟨depth, fun more hmore => ?_⟩
  have hset : ∃ states, g.collected more task = some states ∧
      { s | s ∈ states } = g.statesFrom task := by
    rw [collected]
    cases hnode : g.get task with
    | none =>
        refine ⟨[], rfl, Set.ext fun s => iff_of_false List.not_mem_nil ?_⟩
        rintro ⟨id, node, hway, hid, -⟩
        rcases ReflTransGen.cases_head hway with rfl | ⟨b, harc, -⟩
        · rw [hnode] at hid
          cases hid
        · have hsome := (hg.joined _ _ harc).1
          rw [hnode] at hsome
          cases hsome
    | some node =>
        obtain ⟨found, hfound⟩ := hdepth more hmore [node.state]
        refine ⟨found, hfound, Set.ext fun s => (mem_collect hg hfound s).trans ?_⟩
        rw [List.mem_singleton]
        constructor
        · rintro (rfl | ⟨id, m, hway, hid, hs⟩)
          · exact ⟨task, node, .refl, hnode, rfl⟩
          · exact ⟨id, m, hway.to_reflTransGen, hid, hs⟩
        · rintro ⟨id, m, hway, hid, hs⟩
          rcases reflTransGen_iff_eq_or_transGen.mp hway with rfl | hway
          · rw [hnode] at hid
            obtain rfl := Option.some.inj hid
            exact .inl hs.symm
          · exact .inr ⟨id, m, hway, hid, hs⟩
  obtain ⟨states, hstates, hset⟩ := hset
  rw [status, hstates, ← hset, ← reduce_eq]
  rfl

theorem Wf.of_same {g' : TaskGraph} (hg : g.Wf) (hget : ∀ id, g'.get id = g.get id)
    (hdep : ∀ a b, g'.Dep a b ↔ g.Dep a b) : g'.Wf := by
  have heq : g'.Dep = g.Dep := funext fun a => funext fun b => propext (hdep a b)
  refine ⟨fun id node h => hg.keyed id node (hget id ▸ h), fun a b hab => ?_, heq ▸ hg.acyclic⟩
  rw [hget, hget]
  exact hg.joined a b ((hdep a b).mp hab)

/-- For every graph that calls build and every task, the recursion ends, and the status is the
documented one of the states of all that is reached from it.  Edges in another order, or several
from one node to another, change nothing. -/
theorem status_built (calls : List GraphCall) (task : TaskId) :
    let g := Run.after call new calls
    (∃ depth, ∀ more ≥ depth, g.status more task = some (aggregate (g.statesFrom task))) ∧
      ∀ g' : TaskGraph, (∀ id, g'.get id = g.get id) → (∀ a b, g'.Dep a b ↔ g.Dep a b) →
        ∃ depth, ∀ more ≥ depth, g'.status more task = some (aggregate (g.statesFrom task)) := by
  intro g
  have hg : g.Wf := (valid_calls calls).toWf
  refine ⟨status_eq hg task, fun g' hget hdep => ?_⟩
  have hsame : g'.statesFrom task = g.statesFrom task := by
    have heq : g'.Dep = g.Dep := funext fun a => funext fun b => propext (hdep a b)
    unfold statesFrom
    simp only [heq, hget]
  rw [← hsame]
  exact status_eq (hg.of_same hget hdep) task

end TaskGraph

end Orchestrator

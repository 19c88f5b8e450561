/-
# `Cognos.Orchestrator.Wiring` — plans that are refused, and what they leave behind

`submit` gives nothing back when it fails.  It fails before it does anything, when there is no
plan; or at an edge, or for want of a ready task, and then the nodes of the plan and the edges
before that one stay in the graph.  The queue is untouched in both cases.

For a plan of an accepted graph there is one reason to fail: a dependency that is listed twice.
The check of the adapter counts edges and does not mind; the graph refuses the second one.

    submit_error    what a submit that fails leaves behind
    wires_iff       which accepted graphs are wired
-/
import Mathlib
import Cognos.Orchestrator.Submitted
import Cognos.Orchestrator.GraphPlan

namespace Orchestrator

open Digraph (Acyclic)
open Ipc (IntentActionNode IntentActionEdge IntentActionGraph)
open Relation

/-! ## Where the wiring stops -/

theorem length_minted {n : Nat} (ids : { ids : List TaskId // ids.length = n }) :
    n = ids.1.length :=
  ids.2.symm

/-- The edge of a pair of positions, under the ids of the nodes. -/
def edgeAt {n : Nat} (ids : { ids : List TaskId // ids.length = n }) (p : Fin n × Fin n) : Edge :=
  ⟨ids.1.get (p.1.cast (length_minted ids)), ids.1.get (p.2.cast (length_minted ids)), .control⟩

/-- The graph with more edges. -/
def withEdges (rt : Runtime) (es : List Edge) : Runtime :=
  { rt with graph := { rt.graph with edges := rt.graph.edges ++ es } }

/-- Wiring that fails has added the edges before one that the graph then refuses. -/
theorem addEdges_error {n : Nat} (ids : { ids : List TaskId // ids.length = n }) {rt : Runtime}
    {es : List (Fin n × Fin n)} {e : OrchestratorError} (h : (addEdges ids rt es).1 = .error e) :
    ∃ past p rest refusal, es = past ++ p :: rest ∧
      (addEdges ids rt es).2 = withEdges rt (past.map (edgeAt ids)) ∧
      (addEdges ids rt es).2.graph.addDependency (edgeAt ids p).src (edgeAt ids p).dst .control =
        .error refusal ∧ e = .decompositionFailed refusal.text := by
  induction es generalizing rt with
  | nil => cases h
  | cons q es ih =>
      obtain ⟨i, j⟩ := q
      rw [addEdges] at h ⊢
      split
      · next refusal hrefused =>
          rw [hrefused] at h
          refine ⟨[], (i, j), es, refusal, rfl, ?_, hrefused, (Except.error.inj h).symm⟩
          simp [withEdges]
      · next graph hadded =>
          rw [hadded] at h
          obtain ⟨rfl, -⟩ := TaskGraph.addDependency_ok hadded
          obtain ⟨past, p, rest, refusal, rfl, hrt, hrefused, he⟩ := ih h
          refine ⟨(i, j) :: past, p, rest, refusal, rfl, ?_, hrefused, he⟩
          rw [hrt]
          simp [withEdges, edgeAt]

/-! ## What a failed submit leaves behind -/

/-- Under each minted id there is a node of the plan: the one that was added last. -/
theorem get_addNodes_minted {w : SubmitWorld} {rt : Runtime} {k : Nat} {nodes : List PlannedNode}
    {i : Nat} (hi : i < nodes.length) :
    ∃ j, ∃ hj : j < nodes.length, minted w (k + j) = minted w (k + i) ∧
      (addNodes w rt k nodes).1.graph.get (minted w (k + i)) =
        some (placedNode rt w (k + j) nodes[j].subTask) := by
  induction nodes generalizing rt k i with
  | nil => exact absurd hi (Nat.not_lt_zero i)
  | cons p ps ih =>
      have hsame : ∀ n sub, placedNode (addNode rt w k p).1 w n sub = placedNode rt w n sub := by
        intro n sub
        rw [addNode_eq]
        rfl
      have hstep : ∀ m, k + 1 + m = k + (m + 1) := fun m => by omega
      by_cases hlater : ∃ m < ps.length, minted w (k + 1 + m) = minted w (k + i)
      · obtain ⟨m, hm, heq⟩ := hlater
        obtain ⟨j, hj, hminted, hget⟩ := @ih (addNode rt w k p).1 (k + 1) m hm
        refine ⟨j + 1, Nat.succ_lt_succ hj, ?_, ?_⟩
        · rw [← hstep, hminted, heq]
        · rw [← heq, ← hstep]
          refine Eq.trans ?_ (hget.trans ?_)
          · rfl
          · rw [hsame, hstep]
            rfl
      · have hfirst : i = 0 := by
          by_contra hne
          obtain ⟨m, rfl⟩ := Nat.exists_eq_succ_of_ne_zero hne
          exact hlater ⟨m, Nat.lt_of_succ_lt_succ hi, by rw [hstep]⟩
        subst hfirst
        refine ⟨0, Nat.succ_pos _, rfl, ?_⟩
        have hold : ∀ m < ps.length, minted w k ≠ minted w (k + 1 + m) := by
          intro m hm heq
          exact hlater ⟨m, hm, heq.symm⟩
        have hget : (addNodes w (addNode rt w k p).1 (k + 1) ps).1.graph.get (minted w k) = _ :=
          get_addNodes_old hold
        rw [get_addNode, if_pos rfl] at hget
        exact hget

/-- The nodes of the plan and its first `m` edges are left in the graph, and all else is as it
was. -/
structure LeftBehind (rt : Runtime) (w : SubmitWorld) (plan : DecompositionPlan) (m : Nat)
    (rt' : Runtime) : Prop where
  old : ∀ id, (∀ i < plan.nodes.length, id ≠ minted w i) → rt'.graph.get id = rt.graph.get id
  new : ∀ i < plan.nodes.length, ∃ j, ∃ hj : j < plan.nodes.length, minted w j = minted w i ∧
    rt'.graph.get (minted w i) = some (placedNode rt w j plan.nodes[j].subTask)
  edges : rt'.graph.edges = rt.graph.edges ++ (plan.edges.take m).map (plannedEdge w)

theorem leftBehind_of_wired {rt rt' : Runtime} {w : SubmitWorld} {plan : DecompositionPlan}
    {m : Nat} (h : Wired rt w plan m rt') : LeftBehind rt w plan m rt' := by
  refine ⟨fun id hid => ?_, fun i hi => ?_, h.edges⟩
  · rw [h.get]
    refine get_addNodes_old fun i hi => ?_
    rw [Nat.zero_add]
    exact hid i hi
  · obtain ⟨j, hj, hminted, hget⟩ := @get_addNodes_minted w rt 0 plan.nodes i hi
    rw [Nat.zero_add, Nat.zero_add] at hminted
    rw [Nat.zero_add, Nat.zero_add] at hget
    exact ⟨j, hj, hminted, (h.get _).trans hget⟩

theorem edgeAt_addNodes (w : SubmitWorld) (rt : Runtime) (plan : DecompositionPlan)
    (p : Fin plan.nodes.length × Fin plan.nodes.length) :
    edgeAt (addNodes w rt 0 plan.nodes).2 p = plannedEdge w p := by
  simp [edgeAt, plannedEdge, ids_addNodes]

/-- A wiring that stops after `past` has wired it. -/
theorem wired_withEdges (w : SubmitWorld) (rt : Runtime) (plan : DecompositionPlan)
    {past rest : List (Fin plan.nodes.length × Fin plan.nodes.length)}
    (hedges : plan.edges = past ++ rest)
    (hwf : rt.graph.Wf → (withEdges (addNodes w rt 0 plan.nodes).1
      (past.map (edgeAt (addNodes w rt 0 plan.nodes).2))).graph.Wf) :
    Wired rt w plan past.length (withEdges (addNodes w rt 0 plan.nodes).1
      (past.map (edgeAt (addNodes w rt 0 plan.nodes).2))) := by
  obtain ⟨hold, hscheduler⟩ := fields_addNodes w rt 0 plan.nodes
  refine ⟨fun _ => rfl, ?_, hscheduler, hwf⟩
  show (addNodes w rt 0 plan.nodes).1.graph.edges ++ _ = _
  rw [hold, hedges, List.take_left]
  congr 1
  exact List.map_congr_left fun p _ => edgeAt_addNodes w rt plan p

/-- Why a submit stopped after `m` edges: the next one is refused, or there is none and no task is
ready. -/
def Stopped (w : SubmitWorld) (plan : DecompositionPlan) (m : Nat) (rt' : Runtime)
    (e : OrchestratorError) : Prop :=
  (∃ p refusal, plan.edges[m]? = some p ∧
    rt'.graph.addDependency (minted w p.1) (minted w p.2) .control = .error refusal ∧
    e = .decompositionFailed refusal.text) ∨
  (m = plan.edges.length ∧ rt'.graph.readyTasks w.nodeWalk = [] ∧
    e = .decompositionFailed "intent produced zero ready sub-tasks")

/-- A submit that fails leaves the graph and the queue as they were. -/
def Atomic (rt : Runtime) (w : SubmitWorld) (intent : Intent) : Prop :=
  ∀ e, (submit rt w intent).1 = .error e →
    (submit rt w intent).2.graph = rt.graph ∧
      (submit rt w intent).2.scheduler.queue = rt.scheduler.queue

/-- A submit that fails leaves the queue as it was.  Without a plan it leaves everything as it was;
with one, it leaves its nodes and the edges before the refused one. -/
theorem submit_error {rt : Runtime} {w : SubmitWorld} {intent : Intent} {e : OrchestratorError}
    (h : (submit rt w intent).1 = .error e) :
    (submit rt w intent).2.scheduler = rt.scheduler ∧
      ((resolveDecomposition rt w intent = .error e ∧ (submit rt w intent).2 = rt) ∨
        ∃ plan m, resolveDecomposition rt w intent = .ok plan ∧
          LeftBehind rt w plan m (submit rt w intent).2 ∧
          Stopped w plan m (submit rt w intent).2 e) := by
  unfold submit at h ⊢
  cases hplan : resolveDecomposition rt w intent with
  | error e' =>
      rw [hplan] at h
      exact ⟨rfl, Or.inl ⟨congrArg Except.error (Except.error.inj h), rfl⟩⟩
  | ok plan =>
      rw [hplan] at h
      dsimp only at h ⊢
      obtain ⟨m, hwired, hok⟩ := wired_addEdges rt w plan
      have hrefused := fun e => @addEdges_error _ (addNodes w rt 0 plan.nodes).2
        (addNodes w rt 0 plan.nodes).1 plan.edges e
      cases hadded : addEdges (addNodes w rt 0 plan.nodes).2 (addNodes w rt 0 plan.nodes).1
        plan.edges with
      | mk result rt' =>
        rw [hadded] at h hwired hok hrefused
        cases result with
        | error e' =>
            obtain rfl := Except.error.inj h
            obtain ⟨past, p, rest, refusal, hedges, hrt, hrefusal, he⟩ := hrefused _ rfl
            have hpast : plan.edges.take past.length = past := by rw [hedges, List.take_left]
            have hstop : Wired rt w plan past.length rt' := by
              have hwf := hwired.wf
              dsimp only at hrt hwf
              rw [hrt] at hwf ⊢
              exact wired_withEdges w rt plan hedges hwf
            refine ⟨hwired.scheduler, Or.inr ⟨plan, past.length, rfl, leftBehind_of_wired hstop,
              Or.inl ⟨p, refusal, ?_, ?_, he⟩⟩⟩
            · rw [hedges, List.getElem?_append_right (Nat.le_refl _), Nat.sub_self]
              rfl
            · rw [edgeAt_addNodes] at hrefusal
              exact hrefusal
        | ok u =>
            dsimp only at h ⊢
            have hall := hok rfl
            cases hready : rt'.graph.readyTasks w.nodeWalk with
            | cons root roots =>
                rw [hready] at h
                cases h
            | nil =>
                rw [hready] at h
                obtain rfl := Except.error.inj h
                have hleft := leftBehind_of_wired hwired
                refine ⟨hwired.scheduler, Or.inr ⟨plan, plan.edges.length, rfl, ?_,
                  Or.inr ⟨rfl, hready, rfl⟩⟩⟩
                refine ⟨hleft.old, hleft.new, ?_⟩
                rw [List.take_length, hleft.edges, hall]

/-! ## Wiring a plan without cycles -/

/-- The wiring of a plan, as `submit` does it. -/
def wirePlan (rt : Runtime) (w : SubmitWorld) (plan : DecompositionPlan) :
    Except OrchestratorError Unit × Runtime :=
  addEdges (addNodes w rt 0 plan.nodes).2 (addNodes w rt 0 plan.nodes).1 plan.edges

section Acyclic

variable {n : Nat} {w : SubmitWorld}

theorem plannedEdge_injective
    (hinj : ∀ i < n, ∀ j < n, minted w i = minted w j → i = j) :
    Function.Injective (plannedEdge w (n := n)) := by
  intro p q h
  obtain ⟨hsrc, hdst, -⟩ := Edge.mk.inj h
  refine Prod.ext (Fin.ext ?_) (Fin.ext ?_)
  · exact hinj p.1 p.1.isLt q.1 q.1.isLt hsrc
  · exact hinj p.2 p.2.isLt q.2 q.2.isLt hdst

/-- A way through the wired edges is a way through the plan's. -/
theorem way_of_minted {g : TaskGraph} {past : List (Fin n × Fin n)}
    (hinj : ∀ i < n, ∀ j < n, minted w i = minted w j → i = j)
    (hedges : g.edges = past.map (plannedEdge w)) {a : Fin n} {id : TaskId}
    (h : ReflTransGen g.Dep (minted w a) id) :
    ∃ b : Fin n, minted w b = id ∧ ReflTransGen (fun a b => (a, b) ∈ past) a b := by
  induction h with
  | refl => exact ⟨a, rfl, .refl⟩
  | tail _ hdep ih =>
      obtain ⟨b, rfl, hway⟩ := ih
      obtain ⟨e, he, hsrc, rfl⟩ := TaskGraph.dep_iff.mp hdep
      rw [hedges] at he
      obtain ⟨p, hp, rfl⟩ := List.mem_map.mp he
      have hp1 : p.1 = b := Fin.ext (hinj p.1 p.1.isLt b b.isLt hsrc)
      refine ⟨p.2, rfl, hway.tail ?_⟩
      rw [← hp1]
      exact hp

/-- The refusal of an edge that is there already. -/
def repeated (w : SubmitWorld) (p : Fin n × Fin n) : OrchestratorError :=
  .decompositionFailed (GraphError.duplicateEdge (minted w p.1) (minted w p.2)).text

/-- Edges without a cycle between nodes that are there are refused only as repeated. -/
theorem addDependency_acyclic {g : TaskGraph} {past rest : List (Fin n × Fin n)}
    {p : Fin n × Fin n} (hinj : ∀ i < n, ∀ j < n, minted w i = minted w j → i = j)
    (hnodes : ∀ i : Fin n, (g.get (minted w i)).isSome = true)
    (hedges : g.edges = past.map (plannedEdge w))
    (hacyclic : Acyclic fun a b => (a, b) ∈ past ++ p :: rest) :
    g.addDependency (minted w p.1) (minted w p.2) .control =
      if p ∈ past then .error (.duplicateEdge (minted w p.1) (minted w p.2))
      else .ok { g with edges := (past ++ [p]).map (plannedEdge w) } := by
  have hthere : ∀ i : Fin n, (g.get (minted w i)).isNone = false := by
    intro i
    rw [← Option.not_isSome, hnodes i]
    rfl
  have hmem : (⟨minted w p.1, minted w p.2, .control⟩ : Edge) ∈ g.edges ↔ p ∈ past := by
    rw [hedges]
    exact List.mem_map_of_injective (plannedEdge_injective hinj)
  have hway : g.reachable (minted w p.2) (minted w p.1) = false := by
    rw [← Bool.not_eq_true, TaskGraph.reachable_iff]
    intro hback
    obtain ⟨b, hb, hway⟩ := way_of_minted hinj hedges hback
    obtain rfl : b = p.1 := Fin.ext (hinj b b.isLt p.1 p.1.isLt hb)
    have hold : ReflTransGen (fun a b => (a, b) ∈ past ++ p :: rest) p.2 p.1 :=
      ReflTransGen.mono (fun _ _ hab => List.mem_append_left _ hab) p.2 p.1 hway
    have hnew : (p.1, p.2) ∈ past ++ p :: rest := List.mem_append_right _ List.mem_cons_self
    exact hacyclic p.1 (TransGen.head' hnew hold)
  unfold TaskGraph.addDependency
  rw [hthere, hthere, hway]
  simp only [Bool.false_eq_true, if_false, hmem]
  split
  · rfl
  · rw [hedges, List.map_append]
    rfl

/-- Wiring edges without a cycle goes through when none of them is repeated, and stops at a
repeated one otherwise. -/
theorem addEdges_acyclic (ids : { ids : List TaskId // ids.length = n })
    (hids : ∀ p, edgeAt ids p = plannedEdge w p)
    (hinj : ∀ i < n, ∀ j < n, minted w i = minted w j → i = j) {rt : Runtime}
    {past es : List (Fin n × Fin n)}
    (hnodes : ∀ i : Fin n, (rt.graph.get (minted w i)).isSome = true)
    (hedges : rt.graph.edges = past.map (plannedEdge w))
    (hacyclic : Acyclic fun a b => (a, b) ∈ past ++ es) :
    ((addEdges ids rt es).1 = .ok () ∧ es.Nodup ∧ ∀ p ∈ es, p ∉ past) ∨
      ∃ p, 2 ≤ (past ++ es).count p ∧ (addEdges ids rt es).1 = .error (repeated w p) := by
  induction es generalizing rt past with
  | nil => exact Or.inl ⟨rfl, List.nodup_nil, List.forall_mem_nil _⟩
  | cons p es ih =>
      have hstep := addDependency_acyclic hinj hnodes hedges hacyclic
      have hp := hids p
      obtain ⟨i, j⟩ := p
      obtain ⟨hsrc, hdst, -⟩ := Edge.mk.inj hp
      rw [addEdges, hsrc, hdst, hstep]
      by_cases hmem : (i, j) ∈ past
      · rw [if_pos hmem]
        refine Or.inr ⟨(i, j), ?_, rfl⟩
        rw [List.count_append, List.count_cons_self]
        have hone : 0 < past.count (i, j) := List.count_pos_iff.mpr hmem
        omega
      · rw [if_neg hmem]
        dsimp only
        have happend : past ++ (i, j) :: es = (past ++ [(i, j)]) ++ es :=
          List.append_cons past (i, j) es
        rw [happend] at hacyclic ⊢
        rcases @ih { rt with graph := { rt.graph with
            edges := (past ++ [(i, j)]).map (plannedEdge w) } } (past ++ [(i, j)]) hnodes rfl
            hacyclic with ⟨hok, hnodup, hnot⟩ | hrepeated
        · refine Or.inl ⟨hok, List.nodup_cons.mpr ⟨fun hes => ?_, hnodup⟩, ?_⟩
          · exact hnot _ hes (List.mem_append_right _ (List.mem_singleton_self _))
          · refine List.forall_mem_cons.mpr ⟨hmem, fun q hq hpast => ?_⟩
            exact hnot q hq (List.mem_append_left _ hpast)
        · exact Or.inr hrepeated

end Acyclic

/-! ## The plan of an accepted graph -/

/-- A graph lists a dependency twice exactly when the plan does. -/
theorem nodup_deps_iff {graph : IntentActionGraph}
    {edges : List (Fin graph.nodes.length × Fin graph.nodes.length)}
    (hat : List.Forall₂ (At graph.nodes) graph.deps edges) :
    (graph.deps.map fun e => (e.fromNode, e.toNode)).Nodup ↔ edges.Nodup := by
  rw [← ends_of_at hat]
  refine ⟨List.Nodup.of_map _, fun h => h.map_on ?_⟩
  intro p hp q hq heq
  obtain ⟨hp1, hp2⟩ := idToIdx_of_mem hat hp
  obtain ⟨hq1, hq2⟩ := idToIdx_of_mem hat hq
  rw [heq] at hp1 hp2
  exact Prod.ext (Option.some.inj (hp1.symm.trans hq1)) (Option.some.inj (hp2.symm.trans hq2))

section Empty

variable {rt : Runtime} {w : SubmitWorld} {plan : DecompositionPlan}

theorem freshIds_of_new (hempty : rt.graph = .new)
    (hids : ∀ i < plan.nodes.length, ∀ j < plan.nodes.length, minted w i = minted w j → i = j) :
    FreshIds rt w plan.nodes.length := by
  refine ⟨fun i _ => ?_, hids⟩
  rw [hempty]
  rfl

/-- A wired plan without a cycle has a task to begin with. -/
theorem readyTasks_wirePlan (hempty : rt.graph = .new)
    (hids : ∀ i < plan.nodes.length, ∀ j < plan.nodes.length, minted w i = minted w j → i = j)
    (hnodes : plan.nodes ≠ []) (hacyclic : Acyclic fun a b => (a, b) ∈ plan.edges) :
    (wirePlan rt w plan).2.graph.readyTasks w.nodeWalk ≠ [] := by
  obtain ⟨m, hwired, -⟩ := wired_addEdges rt w plan
  have hfresh := freshIds_of_new hempty hids
  have hwf : WellFounded fun a b => (a, b) ∈ plan.edges :=
    @Digraph.Arc.wellFounded _ _ plan.edges hacyclic
  obtain ⟨i, -, hfirst⟩ := hwf.has_min Set.univ
    ⟨⟨0, List.length_pos_iff.mpr hnodes⟩, Set.mem_univ _⟩
  have hready : minted w i ∈ (wirePlan rt w plan).2.graph.readyTasks w.nodeWalk := by
    refine TaskGraph.mem_readyTasks.mpr ⟨_, get_wired_new hwired hfresh i, rfl, fun a ha => ?_⟩
    have hold : ¬ rt.graph.Dep a (minted w i) := by
      rw [hempty, TaskGraph.dep_iff]
      rintro ⟨e, he, -⟩
      cases he
    obtain ⟨e, he, -, hdst⟩ := ((dep_wired hwired).mp ha).resolve_left hold
    obtain rfl : e.2 = i := Fin.ext (hids e.2 e.2.isLt i i.isLt hdst)
    exact absurd (List.mem_of_mem_take he) (hfirst e.1 (Set.mem_univ _))
  exact List.ne_nil_of_mem hready

theorem wirePlan_acyclic (hempty : rt.graph = .new)
    (hids : ∀ i < plan.nodes.length, ∀ j < plan.nodes.length, minted w i = minted w j → i = j)
    (hacyclic : Acyclic fun a b => (a, b) ∈ plan.edges) :
    ((wirePlan rt w plan).1 = .ok () ∧ plan.edges.Nodup) ∨
      ∃ p, 2 ≤ plan.edges.count p ∧ (wirePlan rt w plan).1 = .error (repeated w p) := by
  have hfresh := freshIds_of_new hempty hids
  have hnodes : ∀ i : Fin plan.nodes.length,
      ((addNodes w rt 0 plan.nodes).1.graph.get (minted w i)).isSome = true := by
    intro i
    obtain ⟨m, hwired, -⟩ := wired_addEdges rt w plan
    rw [← hwired.get, get_wired_new hwired hfresh i]
    rfl
  have hedges : (addNodes w rt 0 plan.nodes).1.graph.edges =
      ([] : List (Fin plan.nodes.length × Fin plan.nodes.length)).map (plannedEdge w) := by
    rw [(fields_addNodes w rt 0 plan.nodes).1, hempty]
    rfl
  rcases addEdges_acyclic (addNodes w rt 0 plan.nodes).2 (edgeAt_addNodes w rt plan) hids hnodes
    hedges hacyclic with ⟨hok, hnodup, -⟩ | hrepeated
  · exact Or.inl ⟨hok, hnodup⟩
  · exact Or.inr hrepeated

end Empty

/-- The plan of an accepted graph is wired into an empty graph, and has a task to begin with,
exactly when the graph lists no dependency twice; a repeated one is the only refusal. -/
theorem wires_iff {graph : IntentActionGraph} {plan : DecompositionPlan}
    (hplan : protoGraphToPlan graph = .ok plan) {rt : Runtime} (hempty : rt.graph = .new)
    {w : SubmitWorld}
    (hids : ∀ i < plan.nodes.length, ∀ j < plan.nodes.length, minted w i = minted w j → i = j) :
    ((wirePlan rt w plan).1 = .ok () ∧
        (wirePlan rt w plan).2.graph.readyTasks w.nodeWalk ≠ [] ↔
      (graph.deps.map fun e => (e.fromNode, e.toNode)).Nodup) ∧
    ∀ e, (wirePlan rt w plan).1 = .error e →
      ∃ p, 2 ≤ plan.edges.count p ∧ e = repeated w p := by
  obtain ⟨hnodes, edges, hat, hacyclic, rfl⟩ := protoGraphToPlan_ok_iff.mp hplan
  have hplanned : (planOf graph.nodes edges).nodes ≠ [] := by
    intro hnil
    exact hnodes (List.map_eq_nil_iff.mp hnil)
  have hcast : Acyclic fun a b => (a, b) ∈ (planOf graph.nodes edges).edges := by
    intro a ha
    refine hacyclic (a.cast (length_planOf graph.nodes edges)) ?_
    exact TransGen.lift (Fin.cast (length_planOf graph.nodes edges))
      (fun i j hij => mem_edges_planOf.mp hij) a a ha
  have hnodup : (planOf graph.nodes edges).edges.Nodup ↔ edges.Nodup := by
    refine List.nodup_map_iff ?_
    intro p q heq
    obtain ⟨h1, h2⟩ := Prod.mk.inj heq
    exact Prod.ext (Fin.cast_injective _ h1) (Fin.cast_injective _ h2)
  rw [nodup_deps_iff hat, ← hnodup]
  rcases wirePlan_acyclic hempty hids hcast with ⟨hok, hnot⟩ | ⟨p, hp, herror⟩
  · refine ⟨iff_of_true ⟨hok, readyTasks_wirePlan hempty hids hplanned hcast⟩ hnot, ?_⟩
    intro e he
    rw [hok] at he
    cases he
  · refine ⟨iff_of_false (fun hok => ?_) (fun hnot => ?_), fun e he => ⟨p, hp, ?_⟩⟩
    · rw [herror] at hok
      cases hok.1
    · exact absurd (List.nodup_iff_count_le_one.mp hnot p) (Nat.not_le.mpr hp)
    · rw [herror] at he
      exact (Except.error.inj he).symm

/-! Two tasks, the dependency between them listed once and twice. -/

def task (id action : String) : IntentActionNode :=
  { nodeId := id, intentId := "", action, target := "notes", confidence := 0.9, halPreScore := 0.1 }

def once : IntentActionGraph :=
  { nodes := [task "a" "search_files", task "b" "open_files"], deps := [⟨"a", "b"⟩] }

def twice : IntentActionGraph := { once with deps := [⟨"a", "b"⟩, ⟨"a", "b"⟩] }

/-- The intent engine answers with this graph. -/
def answering (graph : IntentActionGraph) : SubmitWorld :=
  { freshTrace := .nil
    intentReply := fun _ => .ok { status := "ok", message := "", actionGraph := some graph }
    freshIds := fun k => Uuid.numbered (k + 1)
    agentWalk := .listed AgentId
    nodeWalk := .listed TaskId
    clock := fun k => k }

def asking : Runtime := { Runtime.new with intentClient := some ⟨true⟩ }

def findNotes : Intent := .new (Uuid.numbered 9) "ana" "find and open notes"

def oncePlan : DecompositionPlan := planOf once.nodes [((0 : Fin 2), (1 : Fin 2))]

def twicePlan : DecompositionPlan :=
  planOf twice.nodes [((0 : Fin 2), (1 : Fin 2)), ((0 : Fin 2), (1 : Fin 2))]

theorem submit_error_twice :
    (submit asking (answering twice) findNotes).2.scheduler = asking.scheduler ∧
      ((resolveDecomposition asking (answering twice) findNotes =
            .error (repeated (answering twice) ((0, 1) : Fin 2 × Fin 2)) ∧
          (submit asking (answering twice) findNotes).2 = asking) ∨
        ∃ plan m, resolveDecomposition asking (answering twice) findNotes = .ok plan ∧
          LeftBehind asking (answering twice) plan m
            (submit asking (answering twice) findNotes).2 ∧
          Stopped (answering twice) plan m (submit asking (answering twice) findNotes).2
            (repeated (answering twice) ((0, 1) : Fin 2 × Fin 2))) :=
  submit_error rfl

/-- The second submit of a session, which is answered with the graph that is accepted. -/
def again : SubmitWorld := { answering once with freshIds := fun k => Uuid.numbered (k + 3) }

/-- The submit fails, its tasks are in the graph, and the next submit queues one of them. -/
theorem not_atomic : ¬ Atomic asking (answering twice) findNotes ∧
    minted (answering twice) 0 ∈
      (submit (submit asking (answering twice) findNotes).2 again findNotes).2.scheduler.queue.map
        (·.taskId) := by
  refine ⟨fun h => ?_, by decide +kernel⟩
  have hgraph := (h (repeated (answering twice) ((0, 1) : Fin 2 × Fin 2)) rfl).1
  have hsome : ((submit asking (answering twice) findNotes).2.graph.get
      (minted (answering twice) 0)).isSome = true := by
    decide +kernel
  rw [hgraph] at hsome
  exact absurd hsome (by decide)

theorem wires_iff_once :
    (wirePlan Runtime.new (answering once) oncePlan).1 = .ok () ∧
        (wirePlan Runtime.new (answering once) oncePlan).2.graph.readyTasks (.listed TaskId) ≠ [] ↔
      (once.deps.map fun e => (e.fromNode, e.toNode)).Nodup :=
  (@wires_iff once oncePlan rfl Runtime.new rfl (answering once) (by decide)).1

/-- The adapter accepts the graph, and the wiring of its plan fails. -/
theorem not_wires_twice : protoGraphToPlan twice = .ok twicePlan ∧
    (wirePlan Runtime.new (answering twice) twicePlan).1 =
      .error (repeated (answering twice) ((0, 1) : Fin 2 × Fin 2)) :=
  ⟨rfl, rfl⟩

end Orchestrator

/-
# `Cognos.IntentEngine.ExecutionOrder` — what `execution_order` promises

A graph made by `from_schema` and any calls of `add_dependency`: it is ordered exactly when its
dependencies have no cycle, and no counter of the sort goes below zero.

The order is to be the same in every run.  Ids are random and maps are walked in any order;
what is left to tell nodes apart is action and target, and `sort_deterministic` leaves two
nodes that share these as the walk brought them.  What they free is then queued in that order.

    built_order    graphs that calls build: their dependencies, when they are ordered, and how
    same_order     two runs agree where nodes that become ready at one moment, with the same
                   action and target, have the same dependents
    not_same_order two nodes with one action and target, each with a dependent of its own
-/
import Mathlib
import Cognos.Lib.KahnPair
import Cognos.Lib.Run
import Cognos.IntentEngine.ActionGraph

namespace IntentEngine

open Digraph (Acyclic)

namespace ActionGraph

/-! ## Calls -/

/-- The graph behind a call of `add_dependency`, which returns its errors before it inserts. -/
def depend (g : ActionGraph) (d : Uuid × Uuid) : ActionGraph :=
  match g.addDependency d.1 d.2 with
  | .ok g' => g'
  | .error _ => g

theorem addDependency_unknown {g : ActionGraph} {a b : Uuid} (h : a ∉ g.nodes ∨ b ∉ g.nodes) :
    ∃ id, id ∉ g.nodes ∧ g.addDependency a b = .error (.unknownNode id) ∧ g.depend (a, b) = g := by
  have herror : ∃ id, id ∉ g.nodes ∧ g.addDependency a b = .error (.unknownNode id) := by
    unfold addDependency
    by_cases ha : a ∈ g.nodes
    · have hb : b ∉ g.nodes := h.resolve_left (not_not.mpr ha)
      exact ⟨b, hb, by rw [dif_pos ha, dif_neg hb]⟩
    · exact ⟨a, ha, by rw [dif_neg ha]⟩
  obtain ⟨id, hid, herror⟩ := herror
  exact ⟨id, hid, herror, by rw [depend, herror]⟩

/-- A call between nodes adds the one dependency it names. -/
theorem depend_known {g : ActionGraph} {a b : Uuid} (ha : a ∈ g.nodes) (hb : b ∈ g.nodes) :
    g.depend (a, b) = g.addEdge a b ha hb := by
  rw [depend, addDependency, dif_pos ha, dif_pos hb]

theorem dep_addEdge {g : ActionGraph} {a b : Uuid} (ha : a ∈ g.nodes) (hb : b ∈ g.nodes)
    (c d : Uuid) : (g.addEdge a b ha hb).Dep c d ↔ g.Dep c d ∨ (c = a ∧ d = b) := by
  show d ∈ ((g.edges.insert a ((g.waiting a).insert b)).lookup c).getD [] ↔ _
  rcases eq_or_ne c a with rfl | hne
  · rw [AList.lookup_insert, Option.getD_some, List.mem_insert_iff, or_comm]
    exact or_congr Iff.rfl (and_iff_right rfl).symm
  · rw [AList.lookup_insert_ne hne]
    exact (or_iff_left fun h => hne h.1).symm

theorem nodes_depend (g : ActionGraph) (d : Uuid × Uuid) : (g.depend d).nodes = g.nodes := by
  obtain ⟨a, b⟩ := d
  by_cases h : a ∈ g.nodes ∧ b ∈ g.nodes
  · rw [depend_known h.1 h.2]
    rfl
  · obtain ⟨-, -, -, hsame⟩ := addDependency_unknown (not_and_or.mp h)
    rw [hsame]

theorem dep_depend (g : ActionGraph) (d : Uuid × Uuid) (a b : Uuid) :
    (g.depend d).Dep a b ↔ g.Dep a b ∨ ((a, b) = d ∧ a ∈ g.nodes ∧ b ∈ g.nodes) := by
  obtain ⟨x, y⟩ := d
  by_cases h : x ∈ g.nodes ∧ y ∈ g.nodes
  · rw [depend_known h.1 h.2, dep_addEdge, Prod.mk.injEq]
    refine or_congr Iff.rfl ⟨?_, And.left⟩
    rintro ⟨rfl, rfl⟩
    exact ⟨⟨rfl, rfl⟩, h⟩
  · obtain ⟨-, -, -, hsame⟩ := addDependency_unknown (not_and_or.mp h)
    rw [hsame]
    refine (or_iff_left ?_).symm
    rintro ⟨heq, hknown⟩
    obtain ⟨rfl, rfl⟩ := Prod.mk.inj heq
    exact h hknown

/-- After calls: the nodes there were, and the dependencies named between them. -/
theorem depend_calls (calls : List (Uuid × Uuid)) (g : ActionGraph) :
    (Run.after depend g calls).nodes = g.nodes ∧
      ∀ a b, (Run.after depend g calls).Dep a b ↔
        g.Dep a b ∨ ((a, b) ∈ calls ∧ a ∈ g.nodes ∧ b ∈ g.nodes) := by
  induction calls generalizing g with
  | nil => exact ⟨rfl, fun a b => (or_iff_left fun h => List.not_mem_nil h.1).symm⟩
  | cons d calls ih =>
      obtain ⟨hnodes, hdep⟩ := ih (g.depend d)
      rw [nodes_depend] at hnodes
      refine ⟨hnodes, fun a b => (hdep a b).trans ?_⟩
      rw [dep_depend, nodes_depend, List.mem_cons, or_assoc, or_and_right]

theorem waiting_foldl (ns : List ActionNode) (g : ActionGraph) (a : Uuid) :
    (ns.foldl addNode g).waiting a = g.waiting a := by
  induction ns generalizing g with
  | nil => rfl
  | cons n ns ih => exact (ih (g.addNode n)).trans (waiting_addNode g n a)

theorem not_dep_schema (fresh : Nat → Uuid) (schema : IntentSchema) (a b : Uuid) :
    ¬ (fromSchema fresh schema).Dep a b := by
  rw [fromSchema_eq, Dep, waiting_foldl]
  exact List.not_mem_nil

/-! ## Ordered graphs -/

section Ordered

variable {g : ActionGraph} {w : Walks} {order : List ActionNode}

/-- The nodes that nothing has to come before, as the map of counters is walked. -/
def ready (g : ActionGraph) (w : Walks) : List Uuid :=
  (w.indegree.1 g.nodes.keys).filter (g.indegree · = 0)

theorem mem_of_ready {a : Uuid} (h : a ∈ g.ready w) : a ∈ g.nodes :=
  (w.indegree.2 _).mem_iff.mp (List.mem_of_mem_filter h)

/-- An order has all nodes, and each behind everything it depends on. -/
theorem order_spec (h : g.executionOrder w = .ok order) :
    order.Perm (g.nodeList w) ∧ (order.map (·.nodeId)).Perm g.nodes.keys ∧
      ∀ a b, g.Dep a b →
        (order.map (·.nodeId)).idxOf a < (order.map (·.nodeId)).idxOf b := by
  obtain ⟨-, hacyclic, rfl⟩ := executionOrder_ok_iff.mp h
  have hsorts := sorts_visited (g := g) (w := w)
  have harc : Kahn.Arc g.nodes.keys (g.targets w) = g.Dep :=
    funext fun a => funext fun b => propext arc_iff
  have hlength := (Kahn.length_eq_iff g.nodes.keys_nodup
    (fun a _ b hb => (mem_targets.mp hb).mem.2) hsorts).mpr (harc ▸ hacyclic)
  have hperm := hsorts.perm hlength
  rw [map_lookup hsorts.known]
  refine ⟨(hperm.trans (w.nodes.2 _).symm).filterMap _, hperm, fun a b hab => ?_⟩
  exact (Kahn.idxOf_lt hsorts (hperm.mem_iff.mpr hab.mem.2) (arc_iff.mpr hab)).2

/-- No counter goes below zero. -/
theorem roomy (g : ActionGraph) (w : Walks) :
    Kahn.Roomy (g.targets w) g.sortDeterministic g.len g.indegree
      (g.sortDeterministic (g.ready w)) := by
  have hindegree : g.indegree = Kahn.indegree g.nodes.keys (g.targets w) :=
    funext fun id => indegree_eq id
  have hstart : (g.sortDeterministic (g.ready w)).Perm
      (g.nodes.keys.filter (Kahn.indegree g.nodes.keys (g.targets w) · = 0)) := by
    rw [← hindegree]
    exact (sortDeterministic_perm _).trans ((w.indegree.2 _).filter _)
  have hinv := Kahn.Inv.start g.nodes.keys_nodup hstart
  rw [hindegree]
  exact hinv.roomy g.nodes.keys_nodup (fun a _ b hb => (mem_targets.mp hb).mem.2)
    sortDeterministic_perm g.len

end Ordered

/-- Of every graph that calls build, however its maps are walked: its dependencies are the ones
that were named between its nodes; it is ordered exactly when it has nodes and no cycle; the
order has all nodes, each behind everything it depends on; no counter goes below zero; and a
dependency with an unknown node is refused and changes nothing. -/
theorem built_order (fresh : Nat → Uuid) (schema : IntentSchema) (calls : List (Uuid × Uuid))
    (w : Walks) :
    let g := Run.after depend (fromSchema fresh schema) calls
    (∀ a b, g.Dep a b ↔ (a, b) ∈ calls ∧ a ∈ g.nodes ∧ b ∈ g.nodes) ∧
      ((∃ order, g.executionOrder w = .ok order) ↔ g.nodes.keys ≠ [] ∧ Acyclic g.Dep) ∧
      (∀ order, g.executionOrder w = .ok order → order.Perm (g.nodeList w) ∧
        (order.map (·.nodeId)).Perm g.nodes.keys ∧
        ∀ a b, g.Dep a b →
          (order.map (·.nodeId)).idxOf a < (order.map (·.nodeId)).idxOf b) ∧
      Kahn.Roomy (g.targets w) g.sortDeterministic g.len g.indegree
        (g.sortDeterministic (g.ready w)) ∧
      ∀ a b, a ∉ g.nodes ∨ b ∉ g.nodes →
        ∃ id, id ∉ g.nodes ∧ g.addDependency a b = .error (.unknownNode id) ∧
          g.depend (a, b) = g := by
  intro g
  obtain ⟨hnodes, hdep⟩ := depend_calls calls (fromSchema fresh schema)
  refine ⟨fun a b => ?_, ?_, fun order horder => order_spec horder, roomy g w,
    fun a b h => addDependency_unknown h⟩
  · rw [hdep, hnodes]
    exact or_iff_right (not_dep_schema fresh schema a b)
  · constructor
    · rintro ⟨order, horder⟩
      obtain ⟨hne, hacyclic, -⟩ := executionOrder_ok_iff.mp horder
      exact ⟨hne, hacyclic⟩
    · rintro ⟨hne, hacyclic⟩
      exact ⟨_, executionOrder_ok_iff.mpr ⟨hne, hacyclic, rfl⟩⟩

/-! ## Two runs -/

/-- What an order shows: action and target of each node, or the error. -/
def shown (r : Except GraphError (List ActionNode)) :
    Except GraphError (List (String × String)) :=
  r.map (List.map fun n => (n.action, n.target))

/-- The same graph under other ids: the same actions and targets, and the same dependencies. -/
structure Renames (f : Uuid → Uuid) (g g' : ActionGraph) : Prop where
  inj : ∀ a ∈ g.nodes, ∀ b ∈ g.nodes, f a = f b → a = b
  onto : ∀ b, b ∈ g'.nodes ↔ ∃ a ∈ g.nodes, f a = b
  sortKey : ∀ a ∈ g.nodes, g'.sortKey (f a) = g.sortKey a
  dep : ∀ a ∈ g.nodes, ∀ b ∈ g.nodes, g'.Dep (f a) (f b) ↔ g.Dep a b

/-- Of the nodes that become ready at one moment, at the start or by one visit, those with the
same action and target have the same dependents. -/
def TiesAlike (g : ActionGraph) (w : Walks) : Prop :=
  ∀ free ∈ g.ready w :: Kahn.freed (g.targets w) g.sortDeterministic g.len g.indegree
    (g.sortDeterministic (g.ready w)), Kahn.Alike (g.targets w) g.sortKey free

theorem keyLe_antisymm (x y : Option (String × String)) (hxy : keyLe x y = true)
    (hyx : keyLe y x = true) : x = y := by
  cases x with
  | none =>
      cases y with
      | none => rfl
      | some q => cases hyx
  | some p =>
      cases y with
      | none => cases hxy
      | some q =>
          have hpq := (keyLe_some_iff.mp hxy).antisymm (keyLe_some_iff.mp hyx)
          rw [toLex_inj.mp hpq]

theorem byKey (g : ActionGraph) : Kahn.ByKey (fun x y => keyLe x y = true) g.sortKey g.nodes.keys
    g.sortDeterministic := by
  refine ⟨sortDeterministic_perm, fun l _ => ?_⟩
  refine List.pairwise_map.mpr (List.pairwise_mergeSort ?_ ?_ l)
  · exact fun a b c => keyLe_trans (g.sortKey a) (g.sortKey b) (g.sortKey c)
  · exact fun a b => keyLe_total (g.sortKey a) (g.sortKey b)

section Runs

variable {f : Uuid → Uuid} {g g' : ActionGraph}

theorem Renames.refl (g : ActionGraph) : Renames id g g where
  inj _ _ _ _ h := h
  onto b := ⟨fun hb => ⟨b, hb, rfl⟩, fun ⟨_, ha, hab⟩ => hab ▸ ha⟩
  sortKey _ _ := rfl
  dep _ _ _ _ := Iff.rfl

theorem Renames.mem (h : Renames f g g') {a : Uuid} (ha : a ∈ g.nodes) : f a ∈ g'.nodes :=
  (h.onto _).mpr ⟨a, ha, rfl⟩

theorem nodup_targets (g : ActionGraph) (w : Walks) (a : Uuid) : (g.targets w a).Nodup :=
  ((w.targets a).2 _).nodup_iff.mpr (g.waiting_nodup a)

/-- However the sets are walked, the graphs correspond. -/
theorem Renames.corresponds (h : Renames f g g') (w w' : Walks) :
    Kahn.Corresponds f g.nodes.keys (g.targets w) (g'.targets w') g.sortKey g'.sortKey where
  inj := h.inj
  closed a _ b hb := (mem_targets.mp hb).mem.2
  key_eq := h.sortKey
  outs_perm a ha := by
    have hinj : ((g.targets w a).map f).Nodup :=
      (nodup_targets g w a).map_on fun b hb c hc =>
        h.inj b (mem_targets.mp hb).mem.2 c (mem_targets.mp hc).mem.2
    refine (List.perm_ext_iff_of_nodup (nodup_targets g' w' (f a)) hinj).mpr fun d => ?_
    rw [mem_targets, List.mem_map]
    constructor
    · intro hd
      obtain ⟨b, hb, rfl⟩ := (h.onto d).mp hd.mem.2
      exact ⟨b, mem_targets.mpr ((h.dep a ha b hb).mp hd), rfl⟩
    · rintro ⟨b, hb, rfl⟩
      have hab := mem_targets.mp hb
      exact (h.dep a ha b hab.mem.2).mpr hab

theorem Renames.keys_perm (h : Renames f g g') : g'.nodes.keys.Perm (g.nodes.keys.map f) := by
  have hinj : (g.nodes.keys.map f).Nodup := g.nodes.keys_nodup.map_on fun a ha b hb =>
    h.inj a ha b hb
  refine (List.perm_ext_iff_of_nodup g'.nodes.keys_nodup hinj).mpr fun d => ?_
  rw [List.mem_map]
  exact h.onto d

theorem Renames.indegree (h : Renames f g g') (w w' : Walks) {b : Uuid} (hb : b ∈ g.nodes) :
    g'.indegree (f b) = g.indegree b := by
  rw [indegree_eq (w := w') (f b), indegree_eq (w := w) b, Kahn.indegree, Kahn.indegree,
    (h.keys_perm.map _).sum_eq, List.map_map]
  refine congrArg List.sum (List.map_congr_left fun a ha => ?_)
  have hcorr := h.corresponds w w'
  exact hcorr.count ha hb (hcorr.outs_perm a ha)

/-- What is ready at the start corresponds. -/
theorem Renames.ready_perm (h : Renames f g g') (w w' : Walks) :
    (g'.ready w').Perm ((g.ready w).map f) := by
  have hkeys := ((w'.indegree.2 g'.nodes.keys).trans h.keys_perm).filter (g'.indegree · = 0)
  refine hkeys.trans ?_
  rw [List.filter_map]
  have hzero : g.nodes.keys.filter ((fun b => decide (g'.indegree b = 0)) ∘ f) =
      g.nodes.keys.filter (g.indegree · = 0) := by
    refine List.filter_congr fun b hb => ?_
    show decide (g'.indegree (f b) = 0) = decide (g.indegree b = 0)
    rw [h.indegree w w' hb]
  rw [hzero]
  exact ((w.indegree.2 _).filter _).symm.map f

/-- The keys of the nodes visited are the same in both runs. -/
theorem Renames.keys_visited (h : Renames f g g') {w : Walks} (hties : g.TiesAlike w)
    (w' : Walks) : (g.visited w).map g.sortKey = (g'.visited w').map g'.sortKey := by
  obtain ⟨hstart, hfreed⟩ := List.forall_mem_cons.mp hties
  have hready : ∀ a ∈ g.ready w, a ∈ g.nodes.keys := fun a ha => mem_of_ready ha
  have hready' : ∀ a ∈ g'.ready w', a ∈ g'.nodes.keys := fun a ha => mem_of_ready ha
  have hlen : g'.len = g.len := by
    rw [len, len, h.keys_perm.length_eq, List.length_map]
  show (Kahn.loop _ _ _ _ (g.sortDeterministic (g.ready w))).map _ =
    (Kahn.loop _ _ _ _ (g'.sortDeterministic (g'.ready w'))).map _
  rw [hlen]
  refine Kahn.keys_loop (h.corresponds w w') keyLe_antisymm (byKey g) (fun a ha => h.mem ha)
    (byKey g') ?_ (fun c hc => h.indegree w w' hc) ?_ (roomy g w) hfreed
  · exact fun a ha => hready a ((sortDeterministic_perm _).mem_iff.mp ha)
  · exact Kahn.twins_of_sorted (h.corresponds w w') keyLe_antisymm hready (h.ready_perm w w')
      hstart (sortDeterministic_perm _) (sortDeterministic_perm _)
      ((byKey g).sorted _ hready) ((byKey g').sorted _ hready')

theorem map_filterMap_get (g : ActionGraph) (ids : List Uuid) :
    (ids.filterMap g.get).map (fun n => (n.action, n.target)) =
      (ids.map g.sortKey).filterMap id := by
  rw [List.map_filterMap, List.filterMap_map]
  rfl

/-- In two runs that build the same graph, under any ids and however maps are walked, the order
shows the same actions and targets, where nodes that tie have the same dependents. -/
theorem same_order (h : Renames f g g') {w : Walks} (hties : g.TiesAlike w) (w' : Walks) :
    shown (g.executionOrder w) = shown (g'.executionOrder w') := by
  have hpairs : ((g.visited w).filterMap g.get).map (fun n => (n.action, n.target)) =
      ((g'.visited w').filterMap g'.get).map (fun n => (n.action, n.target)) := by
    rw [map_filterMap_get, map_filterMap_get, h.keys_visited hties w']
  have hlength : ((g.visited w).filterMap g.get).length =
      ((g'.visited w').filterMap g'.get).length := by
    rw [← List.length_map, hpairs, List.length_map]
  have hlen : g'.len = g.len := by
    rw [len, len, h.keys_perm.length_eq, List.length_map]
  have hempty : g.nodes.keys = [] ↔ g'.nodes.keys = [] := by
    rw [← List.length_eq_zero_iff, ← List.length_eq_zero_iff]
    exact (congrArg (· = 0) hlen).symm.to_iff
  unfold executionOrder
  simp only [← hempty, hlen, ← hlength]
  split_ifs
  · rfl
  · rfl
  · exact congrArg Except.ok hpairs

/-- Where no two nodes have the same action and target, nothing ties. -/
theorem tiesAlike_of_distinct {w : Walks}
    (h : ∀ a ∈ g.nodes, ∀ b ∈ g.nodes, g.sortKey a = g.sortKey b → a = b) : g.TiesAlike w := by
  have hsame : ∀ free : List Uuid, (∀ a ∈ free, a ∈ g.nodes) →
      Kahn.Alike (g.targets w) g.sortKey free := by
    intro free hfree a ha b hb hkey
    rw [h a (hfree a ha) b (hfree b hb) hkey]
  refine List.forall_mem_cons.mpr ⟨hsame _ fun a ha => mem_of_ready ha, fun free hfree => ?_⟩
  refine hsame free fun b hb => ?_
  obtain ⟨a, hab⟩ := Kahn.exists_of_mem_freed hfree hb
  exact (mem_targets.mp hab).mem.2

/-- What a run visits when what is freed comes one by one. -/
theorem visited_eq {w : Walks} {ids : List Uuid} (hready : g.sortDeterministic (g.ready w) = ids)
    (hfreed : ∀ free ∈ Kahn.freed (g.targets w) id g.len g.indegree ids, free.length ≤ 1) :
    g.visited w = Kahn.loop (g.targets w) id g.len g.indegree ids := by
  show Kahn.loop _ _ _ _ (g.sortDeterministic (g.ready w)) = _
  rw [hready]
  refine Kahn.loop_arranged fun free hfree => ?_
  have hshort := hfreed free hfree
  cases free with
  | nil => exact List.perm_nil.mp (sortDeterministic_perm [])
  | cons a free =>
      obtain rfl := List.length_eq_zero_iff.mp (Nat.le_zero.mp (Nat.le_of_succ_le_succ hshort))
      exact List.perm_singleton.mp (sortDeterministic_perm [a])

/-- Nodes that are in order stay as they come. -/
theorem sortDeterministic_of_pairwise {ids : List Uuid}
    (h : ids.Pairwise fun a b => keyLe (g.sortKey a) (g.sortKey b) = true) :
    g.sortDeterministic ids = ids :=
  List.mergeSort_of_pairwise h

end Runs

/-! ## A tie -/

/-- The walks of a run in which the map of counters comes the other way round. -/
def backwards : Walks :=
  ⟨.listed _, .listed _, fun _ => .listed _, ⟨List.reverse, List.reverse_perm⟩⟩

def step (k : Nat) (action target : String) : ActionNode :=
  ⟨.numbered k, .nil, action, target, 0.9, 0.1⟩

/-- A file is opened, then sent. -/
def openSend : ActionGraph :=
  depend ([step 0 "open" "a", step 1 "send" "a"].foldl addNode new) (.numbered 0, .numbered 1)

theorem same_order_openSend :
    shown (openSend.executionOrder .listed) = shown (openSend.executionOrder backwards) := by
  have hkeys : ∀ a ∈ openSend.nodes.keys, ∀ b ∈ openSend.nodes.keys,
      openSend.sortKey a = openSend.sortKey b → a = b := by decide
  exact same_order (.refl openSend) (tiesAlike_of_distinct hkeys) backwards

/-- One file is copied twice; opening it waits for the first copy, sending it for the second. -/
def copies : ActionGraph :=
  Run.after depend ([step 0 "copy" "a", step 1 "copy" "a", step 2 "open" "a",
    step 3 "send" "a"].foldl addNode new) [(.numbered 0, .numbered 2), (.numbered 1, .numbered 3)]

theorem visited_copies : copies.visited .listed =
      [.numbered 1, .numbered 0, .numbered 3, .numbered 2] ∧
    copies.visited backwards = [.numbered 0, .numbered 1, .numbered 2, .numbered 3] := by
  constructor
  · have hready : copies.ready .listed = [.numbered 1, .numbered 0] := by decide
    have hsort : copies.sortDeterministic [.numbered 1, .numbered 0] =
        [.numbered 1, .numbered 0] := sortDeterministic_of_pairwise (by decide)
    rw [visited_eq (hready ▸ hsort) (by decide)]
    decide
  · have hready : copies.ready backwards = [.numbered 0, .numbered 1] := by decide
    have hsort : copies.sortDeterministic [.numbered 0, .numbered 1] =
        [.numbered 0, .numbered 1] := sortDeterministic_of_pairwise (by decide)
    rw [visited_eq (hready ▸ hsort) (by decide)]
    decide

/-- Sending comes before opening in one run and behind it in the other. -/
theorem not_same_order : ¬ ∀ (f : Uuid → Uuid) (g g' : ActionGraph) (w w' : Walks),
    Renames f g g' → shown (g.executionOrder w) = shown (g'.executionOrder w') := by
  intro h
  have hsame := h id copies copies .listed backwards (.refl copies)
  have hempty : copies.nodes.keys ≠ [] := by decide
  unfold executionOrder at hsame
  simp only [if_neg hempty, visited_copies.1, visited_copies.2] at hsame
  revert hsame
  decide

end ActionGraph

end IntentEngine

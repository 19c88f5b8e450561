/-
# `Cognos.IntentEngine.ActionGraph` — the graph of actions of an intent

`action_graph.rs`: actions by the id of their node, and for each node the set of those that
wait for it.  A graph is only ever made of `new`, `add_node` and `add_dependency`; what these
keep is a field of the type: a node is found under its own id, it has an entry among the
edges, and no edge leads to where no node is.

The sets and maps are walked in an order that is not ours to say (`Walks`).
`execution_order` is Kahn's sort, nodes of one rank by action and target.
-/
import Mathlib
import Cognos.Lib.Kahn
import Cognos.Orchestrator.TaskGraph
import Cognos.IntentEngine.SchemaValidator

namespace IntentEngine

open Orchestrator (HashOrder)

/-! ## Types -/

/-- One executable action proposed to HAL. -/
structure ActionNode where
  nodeId : Uuid
  intentId : Uuid
  action : String
  target : String
  confidence : Float32
  halPreScore : Float32

inductive GraphError
  | unknownNode (id : Uuid)
  | cycleDetected
  | empty
  deriving DecidableEq

def GraphError.text : GraphError → String
  | .unknownNode id => "edge references unknown node " ++ id.text
  | .cycleDetected => "action graph contains a cycle"
  | .empty => "action graph has no nodes"

/-- Actions and who waits for whom: the nodes under `a` in `edges` wait for `a`. -/
structure ActionGraph where
  nodes : AList fun _ : Uuid => ActionNode
  edges : AList fun _ : Uuid => List Uuid
  keyed : ∀ id n, nodes.lookup id = some n → n.nodeId = id
  listed : ∀ id, id ∈ edges ↔ id ∈ nodes
  joined : ∀ a bs, edges.lookup a = some bs → ∀ b ∈ bs, b ∈ nodes
  once : ∀ a bs, edges.lookup a = some bs → bs.Nodup

/-- The orders in which the maps and sets of one graph are walked. -/
structure Walks where
  nodes : HashOrder Uuid
  edges : HashOrder Uuid
  targets : Uuid → HashOrder Uuid
  indegree : HashOrder Uuid

/-- The orders of the lists that model them. -/
def Walks.listed : Walks := ⟨.listed _, .listed _, fun _ => .listed _, .listed _⟩

namespace ActionGraph

/-! ## Building -/

def new : ActionGraph where
  nodes := ∅
  edges := ∅
  keyed id n h := by cases h
  listed id := by simp
  joined a bs h := by cases h
  once a bs h := by cases h

/-- `edges.entry(id).or_default()` -/
def orDefault (edges : AList fun _ : Uuid => List Uuid) (id : Uuid) :
    AList fun _ : Uuid => List Uuid :=
  if id ∈ edges then edges else edges.insert id []

theorem lookup_orDefault {edges : AList fun _ : Uuid => List Uuid} {id a : Uuid} :
    (orDefault edges id).lookup a =
      if a = id then some ((edges.lookup id).getD []) else edges.lookup a := by
  unfold orDefault
  split_ifs with hid ha ha
  · subst ha
    obtain ⟨bs, hbs⟩ := Option.isSome_iff_exists.mp (AList.lookup_isSome.mpr hid)
    rw [hbs]
    rfl
  · rfl
  · subst ha
    rw [AList.lookup_insert, AList.lookup_eq_none.mpr hid]
    rfl
  · exact AList.lookup_insert_ne ha

theorem mem_orDefault {edges : AList fun _ : Uuid => List Uuid} {id a : Uuid} :
    a ∈ orDefault edges id ↔ a = id ∨ a ∈ edges := by
  rw [← AList.lookup_isSome, lookup_orDefault, ← AList.lookup_isSome]
  split_ifs with ha
  · simp [ha]
  · simp [ha]

/-- Add a node under its own id. -/
def addNode (g : ActionGraph) (node : ActionNode) : ActionGraph where
  nodes := g.nodes.insert node.nodeId node
  edges := orDefault g.edges node.nodeId
  keyed id n h := by
    rcases eq_or_ne id node.nodeId with rfl | hne
    · rw [AList.lookup_insert] at h
      cases h
      rfl
    · rw [AList.lookup_insert_ne hne] at h
      exact g.keyed id n h
  listed id := by rw [mem_orDefault, AList.mem_insert, g.listed]
  joined a bs h b hb := by
    rw [AList.mem_insert]
    right
    rw [lookup_orDefault] at h
    split_ifs at h with ha
    · cases hlook : g.edges.lookup node.nodeId with
      | none =>
          rw [hlook] at h
          cases h
          cases hb
      | some bs' =>
          rw [hlook] at h
          cases h
          exact g.joined _ _ hlook b hb
    · exact g.joined a bs h b hb
  once a bs h := by
    rw [lookup_orDefault] at h
    split_ifs at h with ha
    · cases hlook : g.edges.lookup node.nodeId with
      | none =>
          rw [hlook] at h
          cases h
          exact .nil
      | some bs' =>
          rw [hlook] at h
          cases h
          exact g.once _ _ hlook
    · exact g.once a bs h

def get (g : ActionGraph) (id : Uuid) : Option ActionNode := g.nodes.lookup id

/-- The nodes that wait for `a`. -/
def waiting (g : ActionGraph) (a : Uuid) : List Uuid := (g.edges.lookup a).getD []

theorem waiting_mem (g : ActionGraph) {a b : Uuid} (h : b ∈ g.waiting a) : b ∈ g.nodes := by
  unfold waiting at h
  cases hlook : g.edges.lookup a with
  | none =>
      rw [hlook] at h
      cases h
  | some bs =>
      rw [hlook] at h
      exact g.joined a bs hlook b h

theorem waiting_nodup (g : ActionGraph) (a : Uuid) : (g.waiting a).Nodup := by
  unfold waiting
  cases hlook : g.edges.lookup a with
  | none => exact .nil
  | some bs => exact g.once a bs hlook

/-- `b` comes to wait for `a`. -/
def addEdge (g : ActionGraph) (a b : Uuid) (ha : a ∈ g.nodes) (hb : b ∈ g.nodes) : ActionGraph where
  nodes := g.nodes
  edges := g.edges.insert a ((g.waiting a).insert b)
  keyed := g.keyed
  listed id := by
    rw [AList.mem_insert, g.listed]
    constructor
    · rintro (rfl | h)
      · exact ha
      · exact h
    · exact Or.inr
  joined c bs h d hd := by
    rcases eq_or_ne c a with rfl | hne
    · rw [AList.lookup_insert] at h
      cases h
      rcases List.mem_insert_iff.mp hd with rfl | hd
      · exact hb
      · exact g.waiting_mem hd
    · rw [AList.lookup_insert_ne hne] at h
      exact g.joined c bs h d hd
  once c bs h := by
    rcases eq_or_ne c a with rfl | hne
    · rw [AList.lookup_insert] at h
      cases h
      exact (g.waiting_nodup c).insert
    · rw [AList.lookup_insert_ne hne] at h
      exact g.once c bs h

/-- Declare that `b` depends on `a` completing first. -/
def addDependency (g : ActionGraph) (a b : Uuid) : Except GraphError ActionGraph :=
  if ha : a ∈ g.nodes then
    if hb : b ∈ g.nodes then .ok (g.addEdge a b ha hb) else .error (.unknownNode b)
  else .error (.unknownNode a)

/-- The node of the `k`-th candidate. -/
def candidateNode (fresh : Nat → Uuid) (schema : IntentSchema) (c : CandidateAction × Nat) :
    ActionNode :=
  ⟨fresh c.2, schema.intentId, c.1.action, c.1.target, c.1.confidence, schema.halPreScore⟩

/-- The one node of an intent without candidates. -/
def goalNode (fresh : Nat → Uuid) (schema : IntentSchema) : ActionNode :=
  ⟨fresh 0, schema.intentId, schema.goal, "", schema.confidence, schema.halPreScore⟩

/-- One node per candidate action, no edges; without candidates, one node for the goal. -/
def fromSchema (fresh : Nat → Uuid) (schema : IntentSchema) : ActionGraph :=
  if schema.candidateActions = [] then new.addNode (goalNode fresh schema)
  else (schema.candidateActions.zipIdx.map (candidateNode fresh schema)).foldl addNode new

/-! ## Walking -/

section Walking

variable (g : ActionGraph) (w : Walks)

def len : Nat := g.nodes.keys.length

/-- All nodes, unordered. -/
def nodeList : List ActionNode := (w.nodes.1 g.nodes.keys).filterMap g.get

/-- The nodes that wait for `a`, as the set is walked. -/
def targets (a : Uuid) : List Uuid := (w.targets a).1 (g.waiting a)

/-- All edges as pairs; the second node waits for the first. -/
def dependencies : List (Uuid × Uuid) :=
  (w.edges.1 g.edges.keys).flatMap fun a => (g.targets w a).map (a, ·)

/-- What nodes of one rank are sorted by. -/
def sortKey (id : Uuid) : Option (String × String) :=
  (g.get id).map fun n => (n.action, n.target)

/-- Not `Ordering::Greater`. -/
def keyLe : Option (String × String) → Option (String × String) → Bool
  | none, _ => true
  | some _, none => false
  | some (a, t), some (b, u) => a < b || (a = b && t ≤ u)

def sortDeterministic (ids : List Uuid) : List Uuid :=
  ids.mergeSort fun a b => keyLe (g.sortKey a) (g.sortKey b)

/-- How many edges lead to a node. -/
def indegree (id : Uuid) : Nat := (g.edges.entries.map fun e => e.2.count id).sum

/-- The nodes Kahn's loop visits; each is queued once, so as many rounds as there are nodes
empty the queue. -/
def visited : List Uuid :=
  let ready := (w.indegree.1 g.nodes.keys).filter (g.indegree · = 0)
  Kahn.loop (g.targets w) g.sortDeterministic g.len g.indegree (g.sortDeterministic ready)

def executionOrder : Except GraphError (List ActionNode) :=
  if g.nodes.keys = [] then .error .empty
  else
    let order := (g.visited w).filterMap g.get
    if order.length ≠ g.len then .error .cycleDetected else .ok order

end Walking

/-! ## The order -/

/-- There is an edge: `b` waits for `a`. -/
def Dep (g : ActionGraph) (a b : Uuid) : Prop := b ∈ g.waiting a

section Order

variable {g : ActionGraph} {w : Walks}

theorem mem_targets {a b : Uuid} : b ∈ g.targets w a ↔ g.Dep a b :=
  ((w.targets a).2 (g.waiting a)).mem_iff

theorem Dep.mem {a b : Uuid} (h : g.Dep a b) : a ∈ g.nodes ∧ b ∈ g.nodes := by
  refine ⟨?_, g.waiting_mem h⟩
  rw [← g.listed, ← AList.lookup_isSome]
  unfold Dep waiting at h
  cases hlook : g.edges.lookup a with
  | none =>
      rw [hlook] at h
      cases h
  | some bs => rfl

theorem arc_iff {a b : Uuid} : Kahn.Arc g.nodes.keys (g.targets w) a b ↔ g.Dep a b := by
  constructor
  · rintro ⟨-, h⟩
    exact mem_targets.mp h
  · intro h
    exact ⟨h.mem.1, mem_targets.mpr h⟩

theorem sortDeterministic_perm (ids : List Uuid) : (g.sortDeterministic ids).Perm ids :=
  List.mergeSort_perm _ _

theorem keys_perm : g.edges.keys.Perm g.nodes.keys :=
  (List.perm_ext_iff_of_nodup g.edges.keys_nodup g.nodes.keys_nodup).mpr g.listed

theorem indegree_eq (id : Uuid) :
    g.indegree id = Kahn.indegree g.nodes.keys (g.targets w) id := by
  have hentries : g.edges.entries.map (fun e => e.2.count id) =
      g.edges.keys.map fun a => (g.targets w a).count id := by
    show _ = (g.edges.entries.map Sigma.fst).map _
    rw [List.map_map]
    refine List.map_congr_left fun e he => ?_
    have hlook : g.edges.lookup e.1 = some e.2 := AList.mem_lookup_iff.mpr he
    show e.2.count id = (g.targets w e.1).count id
    rw [targets, ((w.targets e.1).2 _).count_eq, waiting, hlook]
    rfl
  rw [indegree, hentries, (keys_perm.map _).sum_eq]
  rfl

/-- What Kahn's loop visits. -/
theorem sorts_visited : Kahn.Sorts g.nodes.keys (g.targets w) (g.visited w) := by
  have hindegree : g.indegree = Kahn.indegree g.nodes.keys (g.targets w) :=
    funext fun id => indegree_eq id
  unfold visited
  simp only [hindegree]
  refine Kahn.sorts_visited g.nodes.keys_nodup ?_ sortDeterministic_perm ?_
  · intro a _ b hb
    exact (mem_targets.mp hb).mem.2
  · exact (sortDeterministic_perm _).trans ((w.indegree.2 _).filter _)

theorem exists_node {id : Uuid} (h : id ∈ g.nodes) : ∃ n, g.get id = some n :=
  Option.isSome_iff_exists.mp (AList.lookup_isSome.mpr h)

/-- The nodes of known ids, one for one. -/
theorem map_lookup {ids : List Uuid} (h : ∀ id ∈ ids, id ∈ g.nodes) :
    (ids.filterMap g.get).map (·.nodeId) = ids := by
  induction ids with
  | nil => rfl
  | cons id ids ih =>
      obtain ⟨n, hn⟩ := exists_node (h id List.mem_cons_self)
      rw [List.filterMap_cons_some hn, List.map_cons, g.keyed id n hn,
        ih fun a ha => h a (List.mem_cons_of_mem _ ha)]

/-- An order lists the nodes of the ids visited, and these are all. -/
theorem executionOrder_ok_iff {order : List ActionNode} : g.executionOrder w = .ok order ↔
    g.nodes.keys ≠ [] ∧ Digraph.Acyclic g.Dep ∧
      order = (g.visited w).filterMap g.get := by
  have hsorts := sorts_visited (g := g) (w := w)
  have hlength : ((g.visited w).filterMap g.get).length = (g.visited w).length := by
    rw [← List.length_map (·.nodeId), map_lookup hsorts.known]
  have hacyclic := Kahn.length_eq_iff g.nodes.keys_nodup
    (fun a _ b hb => (mem_targets.mp hb).mem.2) hsorts
  have harc : Kahn.Arc g.nodes.keys (g.targets w) = g.Dep :=
    funext fun a => funext fun b => propext arc_iff
  rw [harc, ← hlength] at hacyclic
  unfold executionOrder
  simp only
  split_ifs with hempty hcycle
  · exact ⟨fun h => (by cases h), fun h => absurd hempty h.1⟩
  · exact ⟨fun h => (by cases h), fun h => absurd (hacyclic.mpr h.2.1) hcycle⟩
  · constructor
    · rintro ⟨⟩
      exact ⟨hempty, hacyclic.mp (not_not.mp hcycle), rfl⟩
    · rintro ⟨-, -, rfl⟩
      rfl

end Order

/-- The nodes as they are handed on: in execution order, or as the map is walked. -/
def ordered (g : ActionGraph) (w : Walks) : List ActionNode :=
  match g.executionOrder w with
  | .ok order => order
  | .error _ => g.nodeList w

/-- In either order, all nodes and each once. -/
theorem exists_ordered (g : ActionGraph) (w : Walks) :
    ∃ ids : List Uuid, ids.Perm g.nodes.keys ∧ g.ordered w = ids.filterMap g.get := by
  unfold ordered
  cases horder : g.executionOrder w with
  | error e => exact ⟨_, w.nodes.2 _, rfl⟩
  | ok order =>
      obtain ⟨-, hacyclic, rfl⟩ := executionOrder_ok_iff.mp horder
      have hsorts := sorts_visited (g := g) (w := w)
      refine ⟨g.visited w, hsorts.perm ?_, rfl⟩
      refine (Kahn.length_eq_iff g.nodes.keys_nodup
        (fun a _ b hb => (mem_targets.mp hb).mem.2) hsorts).mpr ?_
      exact hacyclic.mono fun a b hab => arc_iff.mp hab

theorem ordered_perm (g : ActionGraph) (w : Walks) :
    ((g.ordered w).map (·.nodeId)).Perm g.nodes.keys := by
  obtain ⟨ids, hids, hordered⟩ := exists_ordered g w
  rw [hordered, map_lookup fun id hid => hids.mem_iff.mp hid]
  exact hids

theorem get_of_mem_ordered {g : ActionGraph} {w : Walks} {n : ActionNode} (h : n ∈ g.ordered w) :
    g.get n.nodeId = some n := by
  obtain ⟨ids, -, hordered⟩ := exists_ordered g w
  rw [hordered] at h
  obtain ⟨id, -, hn⟩ := List.mem_filterMap.mp h
  rw [g.keyed id n hn]
  exact hn

theorem mem_dependencies {g : ActionGraph} {w : Walks} {a b : Uuid} :
    (a, b) ∈ g.dependencies w ↔ g.Dep a b := by
  rw [dependencies, List.mem_flatMap]
  constructor
  · rintro ⟨c, -, hmem⟩
    obtain ⟨d, hd, heq⟩ := List.mem_map.mp hmem
    obtain ⟨rfl, rfl⟩ := Prod.mk.inj heq
    exact mem_targets.mp hd
  · intro h
    refine ⟨a, (w.edges.2 _).mem_iff.mpr ?_, List.mem_map_of_mem (mem_targets.mpr h)⟩
    exact (g.listed a).mpr h.mem.1

theorem nodup_dependencies (g : ActionGraph) (w : Walks) : (g.dependencies w).Nodup := by
  refine List.nodup_flatMap.mpr ⟨?_, ?_⟩
  · intro a _
    refine List.Nodup.map (fun b c h => congrArg Prod.snd h) ?_
    exact ((w.targets a).2 _).nodup_iff.mpr (g.waiting_nodup a)
  · refine ((w.edges.2 _).nodup_iff.mpr g.edges.keys_nodup).imp ?_
    intro a b hab p hpa hpb
    obtain ⟨c, -, rfl⟩ := List.mem_map.mp hpa
    obtain ⟨d, -, heq⟩ := List.mem_map.mp hpb
    exact hab (congrArg Prod.fst heq).symm

/-! ## Graphs without edges -/

/-- By action, then by target. -/
theorem keyLe_some_iff {p q : String × String} :
    keyLe (some p) (some q) = true ↔ toLex p ≤ toLex q := by
  rw [Prod.Lex.toLex_le_toLex, keyLe, Bool.or_eq_true, Bool.and_eq_true, decide_eq_true_eq,
    decide_eq_true_eq, decide_eq_true_eq]

theorem keyLe_trans (x y z : Option (String × String)) (hxy : keyLe x y = true)
    (hyz : keyLe y z = true) : keyLe x z = true := by
  cases x with
  | none => rfl
  | some p =>
      cases y with
      | none => cases hxy
      | some q =>
          cases z with
          | none => cases hyz
          | some r =>
              exact keyLe_some_iff.mpr ((keyLe_some_iff.mp hxy).trans (keyLe_some_iff.mp hyz))

theorem keyLe_total (x y : Option (String × String)) : (keyLe x y || keyLe y x) = true := by
  cases x with
  | none => rfl
  | some p =>
      cases y with
      | none => rfl
      | some q =>
          rw [Bool.or_eq_true, keyLe_some_iff, keyLe_some_iff]
          exact le_total _ _

theorem visited_of_no_edges {g : ActionGraph} (w : Walks) (hnone : ∀ a b, ¬ g.Dep a b) :
    g.visited w = g.sortDeterministic ((w.indegree.1 g.nodes.keys).filter (g.indegree · = 0)) := by
  have houts : ∀ a, g.targets w a = [] := by
    intro a
    refine List.eq_nil_iff_forall_not_mem.mpr fun b hb => ?_
    exact hnone a b (mem_targets.mp hb)
  rw [visited, Kahn.loop_of_no_arcs _ _ (fun a _ => houts a)
    (List.perm_nil.mp (sortDeterministic_perm []))]
  refine List.take_of_length_le ?_
  rw [(sortDeterministic_perm _).length_eq]
  refine (List.length_filter_le _ _).trans ?_
  rw [(w.indegree.2 _).length_eq]
  rfl

/-- Without edges, nodes are handed on by action, then by target. -/
theorem sorted_ordered {g : ActionGraph} (w : Walks) (hnone : ∀ a b, ¬ g.Dep a b) :
    (g.ordered w).Pairwise fun m n => toLex (m.action, m.target) ≤ toLex (n.action, n.target) := by
  have hacyclic : Digraph.Acyclic g.Dep := by
    intro a ha
    obtain ⟨b, hab, -⟩ := Relation.TransGen.head'_iff.mp ha
    exact hnone a b hab
  rcases eq_or_ne g.nodes.keys [] with hempty | hne
  · have hperm := ordered_perm g w
    rw [hempty] at hperm
    rw [List.map_eq_nil_iff.mp (List.perm_nil.mp hperm)]
    exact .nil
  · have hordered : g.ordered w = (g.visited w).filterMap g.get := by
      rw [ordered, executionOrder_ok_iff.mpr ⟨hne, hacyclic, rfl⟩]
    rw [hordered, visited_of_no_edges w hnone, List.pairwise_filterMap]
    have hsorted : ∀ ids, (g.sortDeterministic ids).Pairwise fun a b =>
        keyLe (g.sortKey a) (g.sortKey b) = true := fun ids =>
      List.pairwise_mergeSort
        (fun a b c => keyLe_trans (g.sortKey a) (g.sortKey b) (g.sortKey c))
        (fun a b => keyLe_total (g.sortKey a) (g.sortKey b)) ids
    refine List.Pairwise.imp ?_ (hsorted _)
    intro a b hab m hm n hn
    rw [sortKey, sortKey, hm, hn] at hab
    exact keyLe_some_iff.mp hab

/-- Where no two nodes have the same action and target, there is one such order. -/
theorem ordered_eq_of_sorted {g : ActionGraph} {w : Walks} (hnone : ∀ a b, ¬ g.Dep a b)
    {ns : List ActionNode} (hperm : (g.ordered w).Perm ns)
    (hsorted : ns.Pairwise fun m n => toLex (m.action, m.target) ≤ toLex (n.action, n.target))
    (hnodup : (ns.map fun n => (n.action, n.target)).Nodup) : g.ordered w = ns := by
  refine List.Perm.eq_of_pairwise ?_ (sorted_ordered w hnone) hsorted hperm
  intro m n hm hn hmn hnm
  exact List.inj_on_of_nodup_map hnodup (hperm.mem_iff.mp hm) hn (toLex_inj.mp (hmn.antisymm hnm))

/-! ## The graph of an intent -/

/-- The nodes of an intent. -/
def planned (fresh : Nat → Uuid) (schema : IntentSchema) : List ActionNode :=
  if schema.candidateActions = [] then [goalNode fresh schema]
  else schema.candidateActions.zipIdx.map (candidateNode fresh schema)

theorem fromSchema_eq (fresh : Nat → Uuid) (schema : IntentSchema) :
    fromSchema fresh schema = (planned fresh schema).foldl addNode new := by
  unfold fromSchema planned
  split_ifs
  · rfl
  · rfl

theorem waiting_addNode (g : ActionGraph) (n : ActionNode) (a : Uuid) :
    (g.addNode n).waiting a = g.waiting a := by
  show ((orDefault g.edges n.nodeId).lookup a).getD [] = (g.edges.lookup a).getD []
  rw [lookup_orDefault]
  split_ifs with ha
  · rw [ha]
    rfl
  · rfl

theorem get_addNode (g : ActionGraph) (n : ActionNode) (id : Uuid) :
    (g.addNode n).get id = if id = n.nodeId then some n else g.get id := by
  show (g.nodes.insert n.nodeId n).lookup id = _
  split_ifs with hid
  · rw [hid]
    exact AList.lookup_insert _
  · exact AList.lookup_insert_ne hid

/-- What some nodes with new ids make of a graph. -/
theorem foldl_addNode {g : ActionGraph} {ns : List ActionNode} (hnodup : (ns.map (·.nodeId)).Nodup)
    (hnew : ∀ n ∈ ns, n.nodeId ∉ g.nodes) :
    (ns.foldl addNode g).nodes.keys.Perm (ns.map (·.nodeId) ++ g.nodes.keys) ∧
      (∀ n ∈ ns, (ns.foldl addNode g).get n.nodeId = some n) ∧
      (∀ id ∈ g.nodes, (ns.foldl addNode g).get id = g.get id) ∧
      ∀ a, (ns.foldl addNode g).waiting a = g.waiting a := by
  induction ns generalizing g with
  | nil => exact ⟨.rfl, by simp, fun _ _ => rfl, fun _ => rfl⟩
  | cons n ns ih =>
      rw [List.map_cons, List.nodup_cons] at hnodup
      have hmem : ∀ id, id ∈ (g.addNode n).nodes ↔ id = n.nodeId ∨ id ∈ g.nodes :=
        fun id => AList.mem_insert _
      have hnew' : ∀ m ∈ ns, m.nodeId ∉ (g.addNode n).nodes := by
        intro m hm hin
        rcases (hmem _).mp hin with heq | hin
        · exact hnodup.1 (List.mem_map.mpr ⟨m, hm, heq⟩)
        · exact hnew m (List.mem_cons_of_mem _ hm) hin
      obtain ⟨hkeys, hget, hold, hwaiting⟩ := ih hnodup.2 hnew'
      refine ⟨?_, ?_, ?_, ?_⟩
      · refine hkeys.trans ?_
        have hinsert : (g.addNode n).nodes.keys = n.nodeId :: g.nodes.keys := by
          show (g.nodes.insert n.nodeId n).keys = _
          rw [AList.keys_insert, List.erase_of_not_mem (hnew n List.mem_cons_self)]
        rw [hinsert]
        exact List.perm_middle
      · intro m hm
        rcases List.mem_cons.mp hm with rfl | hm
        · rw [List.foldl_cons, hold _ ((hmem _).mpr (Or.inl rfl)), get_addNode, if_pos rfl]
        · exact hget m hm
      · intro id hid
        have hne : id ≠ n.nodeId := by
          rintro rfl
          exact hnew n List.mem_cons_self hid
        rw [List.foldl_cons, hold _ ((hmem _).mpr (Or.inr hid)), get_addNode, if_neg hne]
      · intro a
        rw [List.foldl_cons, hwaiting, waiting_addNode]

section FromSchema

variable {fresh : Nat → Uuid} {schema : IntentSchema}

/-- The ids that are minted for an intent differ. -/
def DistinctIds (fresh : Nat → Uuid) (schema : IntentSchema) : Prop :=
  ∀ i < schema.candidateActions.length, ∀ j < schema.candidateActions.length,
    fresh i = fresh j → i = j

theorem nodup_planned (hfresh : DistinctIds fresh schema) :
    ((planned fresh schema).map (·.nodeId)).Nodup := by
  unfold planned
  split_ifs with hempty
  · exact List.nodup_singleton _
  · have hids : (schema.candidateActions.zipIdx.map (candidateNode fresh schema)).map (·.nodeId) =
        (List.range schema.candidateActions.length).map fresh := by
      rw [List.range_eq_range', ← List.zipIdx_map_snd 0, List.map_map, List.map_map]
      rfl
    rw [hids]
    refine List.Nodup.map_on ?_ List.nodup_range
    intro i hi j hj
    exact hfresh i (List.mem_range.mp hi) j (List.mem_range.mp hj)

/-- Handed on, the nodes of an intent are those of its candidates, in some order. -/
theorem ordered_fromSchema (hfresh : DistinctIds fresh schema) (w : Walks) :
    ((fromSchema fresh schema).ordered w).Perm (planned fresh schema) := by
  rw [fromSchema_eq]
  obtain ⟨hkeys, hget, -, -⟩ := foldl_addNode (g := new) (nodup_planned hfresh)
    (fun n _ h => absurd h (AList.notMem_empty _))
  obtain ⟨ids, hids, hordered⟩ := exists_ordered ((planned fresh schema).foldl addNode new) w
  have hall : ∀ ns : List ActionNode, (∀ n ∈ ns, n ∈ planned fresh schema) →
      (ns.map (·.nodeId)).filterMap ((planned fresh schema).foldl addNode new).get = ns := by
    intro ns hns
    induction ns with
    | nil => rfl
    | cons n ns ih =>
        rw [List.map_cons, List.filterMap_cons_some (hget n (hns n List.mem_cons_self)),
          ih fun m hm => hns m (List.mem_cons_of_mem _ hm)]
  have hperm : ids.Perm ((planned fresh schema).map (·.nodeId)) := by
    refine hids.trans (hkeys.trans ?_)
    show (_ ++ []).Perm _
    rw [List.append_nil]
  rw [hordered]
  refine (hperm.filterMap _).trans ?_
  rw [hall _ fun _ h => h]

/-- The graph of an intent has no edges. -/
theorem not_dep_fromSchema (hfresh : DistinctIds fresh schema) (a b : Uuid) :
    ¬ (fromSchema fresh schema).Dep a b := by
  obtain ⟨-, -, -, hwaiting⟩ := foldl_addNode (g := new) (nodup_planned hfresh)
    (fun n _ h => absurd h (AList.notMem_empty _))
  unfold Dep
  rw [fromSchema_eq, hwaiting]
  exact List.not_mem_nil

end FromSchema

end ActionGraph

end IntentEngine

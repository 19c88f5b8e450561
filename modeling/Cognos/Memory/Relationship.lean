/-
# `Cognos.Memory.Relationship` — the relationship graph

`relationship.rs`: for every two files of a session's list the graph counts one more session in
which they were open together, and a prefix is forgotten with every edge that touches it.

    foldlM_bump        what a list of increments does to the weights
    count_pairs        the increments of a session: two paths, as often as each stands in it
    len_eq_iff         the length is the number of related files when no file is left bare
    related_heaviest   the related files are the heaviest neighbours, whatever the map's order
    tallied_iff        the runs that count sessions throughout

A count is a `u32`: at its top it panics where overflow is checked, and begins again where not.
-/
import Mathlib
import Cognos.Lib.AssocMap
import Cognos.Lib.Run
import Cognos.Lib.Text

namespace Relationships

open Text

/-! ## The graph -/

/-- The sessions a file was open in with each other one. -/
abbrev Neighbors := AList fun _ : String => Nat

structure RelationshipGraph where
  edges : AList fun _ : String => Neighbors

/-- The order a `HashMap` gives its entries in. -/
structure Iteration where
  order : List (String × Nat) → List (String × Nat)
  perm : ∀ pairs, (order pairs).Perm pairs

/-- What `sort_by` is given does not put the first behind the second. -/
def InOrder (x y : String × Nat) : Prop := y.2 < x.2 ∨ (x.2 = y.2 ∧ x.1 ≤ y.1)

instance : DecidableRel InOrder := fun x y =>
  inferInstanceAs (Decidable (y.2 < x.2 ∨ (x.2 = y.2 ∧ x.1 ≤ y.1)))

namespace RelationshipGraph

def new : RelationshipGraph := ⟨∅⟩

/-- `*edges.entry(a).or_default().entry(b).or_insert(0) += 1`, with overflow checks or without. -/
def bump (checks : Bool) (g : RelationshipGraph) (e : String × String) :
    Option RelationshipGraph :=
  let neighbors := (g.edges.lookup e.1).getD ∅
  let count := (neighbors.lookup e.2).getD 0
  if checks = true ∧ 2 ^ 32 ≤ count + 1 then none
  else some ⟨g.edges.insert e.1 (neighbors.insert e.2 ((count + 1) % 2 ^ 32))⟩

/-- The inner loop: a file with each of those behind it. -/
def countWith (checks : Bool) (g : RelationshipGraph) (a : String) :
    List String → Option RelationshipGraph
  | [] => some g
  | b :: rest =>
      if a = b then g.countWith checks a rest
      else do
        let g ← g.bump checks (a, b)
        let g ← g.bump checks (b, a)
        g.countWith checks a rest

/-- Record one session's co-open set. -/
def recordCoOpen (checks : Bool) (g : RelationshipGraph) : List String → Option RelationshipGraph
  | [] => some g
  | a :: rest => do
      let g ← g.countWith checks a rest
      g.recordCoOpen checks rest

variable (g : RelationshipGraph)

def neighbors (path : String) : List (String × Nat) :=
  match g.edges.lookup path with
  | some m => m.entries.map fun e => (e.1, e.2)
  | none => []

/-- Top-k files most often co-opened with `path`, strongest first. -/
def related (it : Iteration) (path : String) (k : Nat) : List (String × Nat) :=
  ((it.order (g.neighbors path)).insertionSort InOrder).take k

/-- Remove every edge touching paths under a prefix. -/
def forgetPrefix (pre : String) : RelationshipGraph :=
  ⟨(g.edges.retain fun k _ => !startsWith k pre).mapValues fun neighbors =>
    neighbors.retain fun k _ => !startsWith k pre⟩

def len : Nat := g.edges.entries.length

end RelationshipGraph

/-! ## Runs -/

inductive Act
  | record (files : List String)
  | forget (pre : String)

def RelationshipGraph.perform (checks : Bool) (g : RelationshipGraph) :
    Act → Option RelationshipGraph
  | .record files => g.recordCoOpen checks files
  | .forget pre => some (g.forgetPrefix pre)

/-- A session with both files in its list. -/
def Act.opens (a b : String) : Act → Bool
  | .record files => decide (a ∈ files) && decide (b ∈ files)
  | .forget _ => false

/-- A prefix is forgotten that one of the files is under. -/
def Act.touches (a b : String) : Act → Bool
  | .record _ => false
  | .forget pre => startsWith a pre || startsWith b pre

/-- The sessions with both files since one of them was last forgotten. -/
def sessions (a b : String) (acts : List Act) : Nat :=
  (acts.reverse.takeWhile fun act => !act.touches a b).countP (Act.opens a b)

/-- The graph, unless a count panicked, and the calls so far. -/
structure Recorded where
  graph : Option RelationshipGraph
  acts : List Act

namespace Recorded

def start : Recorded := ⟨some .new, []⟩

def step (checks : Bool) (s : Recorded) (act : Act) : Recorded :=
  ⟨s.graph.bind fun g => g.perform checks act, s.acts ++ [act]⟩

end Recorded

/-! ## What the graph has to be -/

namespace RelationshipGraph

variable (g : RelationshipGraph)

def entry (a b : String) : Option Nat := (g.edges.lookup a).bind fun neighbors => neighbors.lookup b

def weight (a b : String) : Nat := (g.entry a b).getD 0

def Edge (a b : String) : Prop := (g.entry a b).isSome = true

/-- The files with at least one relationship. -/
def linked : Set String := {a | ∃ b, g.Edge a b}

end RelationshipGraph

/-- The heavier neighbour, or the first of two equal ones by name. -/
def Heavier (x y : String × Nat) : Prop := y.2 < x.2 ∨ (x.2 = y.2 ∧ x.1 < y.1)

/-- The `k` heaviest neighbours of a file, in order: those left over come behind them. -/
def Heaviest (g : RelationshipGraph) (path : String) (k : Nat) (r : List (String × Nat)) : Prop :=
  ∃ rest, (r ++ rest).Pairwise Heavier ∧ (∀ b w, (b, w) ∈ r ++ rest ↔ g.entry path b = some w) ∧
    r.length ≤ k ∧ (rest = [] ∨ r.length = k)

/-- The graph counts the sessions of these calls. -/
structure Tallied (g : RelationshipGraph) (acts : List Act) : Prop where
  symmetric : ∀ a b, g.Edge a b → g.Edge b a
  irreflexive : ∀ a, ¬ g.Edge a a
  weight_eq : ∀ a b, a ≠ b → g.weight a b = sessions a b acts
  weight_pos : ∀ a b, g.Edge a b → 0 < g.weight a b
  len_eq : g.len = g.linked.ncard
  heaviest : ∀ it path k, Heaviest g path k (g.related it path k)

def Recorded.Counts (s : Recorded) : Prop := ∃ g, s.graph = some g ∧ Tallied g s.acts

/-- Of two different files of the session none is repeated, and one more session fits in their
count; where overflow is not checked, being in the list often may come to the same as once.  A
file that is not forgotten keeps a neighbour, if it has any. -/
def RelationshipGraph.Countable (checks : Bool) (g : RelationshipGraph) : Act → Prop
  | .record files => ∀ a ∈ files, ∀ b ∈ files, a ≠ b →
      g.weight a b + 1 < 2 ^ 32 ∧
        (files.count a * files.count b = 1 ∨
          checks = false ∧ files.count a * files.count b % 2 ^ 32 = 1)
  | .forget pre => ∀ a, startsWith a pre = false → a ∈ g.linked →
      ∃ b, g.Edge a b ∧ startsWith b pre = false

def Recorded.Countable (checks : Bool) (s : Recorded) (act : Act) : Prop :=
  ∀ g, s.graph = some g → g.Countable checks act

/-! ## The increments of a session -/

/-- Those of the inner loop. -/
def pairsWith (a : String) : List String → List (String × String)
  | [] => []
  | b :: rest => if a = b then pairsWith a rest else (a, b) :: (b, a) :: pairsWith a rest

def pairs : List String → List (String × String)
  | [] => []
  | a :: rest => pairsWith a rest ++ pairs rest

theorem countWith_eq (checks : Bool) (g : RelationshipGraph) (a : String) (files : List String) :
    g.countWith checks a files = (pairsWith a files).foldlM (RelationshipGraph.bump checks) g := by
  induction files generalizing g with
  | nil => rfl
  | cons b rest ih =>
      rw [RelationshipGraph.countWith, pairsWith]
      split
      · exact ih g
      · simp only [List.foldlM_cons, ih]

theorem recordCoOpen_eq (checks : Bool) (g : RelationshipGraph) (files : List String) :
    g.recordCoOpen checks files = (pairs files).foldlM (RelationshipGraph.bump checks) g := by
  induction files generalizing g with
  | nil => rfl
  | cons a rest ih =>
      simp only [RelationshipGraph.recordCoOpen, pairs, List.foldlM_append, countWith_eq, ih]

theorem count_pairsWith {x y : String} (hne : x ≠ y) (a : String) (files : List String) :
    (pairsWith a files).count (x, y) =
      (if a = x then files.count y else 0) + (if a = y then files.count x else 0) := by
  induction files with
  | nil => simp [pairsWith]
  | cons b rest ih =>
      rw [pairsWith]
      split
      · next hab =>
          rw [ih, ← hab]
          rcases eq_or_ne a x with rfl | hax
          · rw [if_pos rfl, if_neg hne, if_pos rfl, if_neg hne, List.count_cons_of_ne hne]
          · rcases eq_or_ne a y with rfl | hay
            · rw [if_neg hax, if_pos rfl, if_neg hax, if_pos rfl, List.count_cons_of_ne hax]
            · simp only [if_neg hax, if_neg hay]
      · next hab =>
          simp only [List.count_cons, ih, beq_iff_eq, Prod.mk.injEq]
          by_cases hax : a = x <;> by_cases hay : a = y <;> grind

/-- Two different paths are counted as often as each stands in the list. -/
theorem count_pairs {x y : String} (hne : x ≠ y) (files : List String) :
    (pairs files).count (x, y) = files.count x * files.count y := by
  induction files with
  | nil => rfl
  | cons a rest ih =>
      rw [pairs, List.count_append, ih, count_pairsWith hne]
      rcases eq_or_ne a x with rfl | hax
      · rw [if_pos rfl, if_neg hne, List.count_cons_self, List.count_cons_of_ne hne]
        ring
      · rw [if_neg hax, List.count_cons_of_ne hax]
        rcases eq_or_ne a y with rfl | hay
        · rw [if_pos rfl, List.count_cons_self]
          ring
        · rw [if_neg hay, List.count_cons_of_ne hay]
          ring

theorem ne_of_mem_pairsWith {a : String} {files : List String} {e : String × String}
    (h : e ∈ pairsWith a files) : e.1 ≠ e.2 := by
  induction files with
  | nil => cases h
  | cons b rest ih =>
      rw [pairsWith] at h
      split at h
      · exact ih h
      · next hab =>
          rcases List.mem_cons.mp h with rfl | h
          · exact hab
          · rcases List.mem_cons.mp h with rfl | h
            · exact Ne.symm hab
            · exact ih h

theorem ne_of_mem_pairs {files : List String} {e : String × String} (h : e ∈ pairs files) :
    e.1 ≠ e.2 := by
  induction files with
  | nil => cases h
  | cons a rest ih =>
      rcases List.mem_append.mp h with h | h
      · exact ne_of_mem_pairsWith h
      · exact ih h

/-- The increments are those of two different files of the list. -/
theorem mem_pairs_iff {files : List String} {a b : String} :
    (a, b) ∈ pairs files ↔ a ≠ b ∧ a ∈ files ∧ b ∈ files := by
  constructor
  · intro h
    have hne : a ≠ b := ne_of_mem_pairs h
    have hpos := List.count_pos_iff.mpr h
    rw [count_pairs hne] at hpos
    exact ⟨hne, List.count_pos_iff.mp (Nat.pos_of_mul_pos_right hpos),
      List.count_pos_iff.mp (Nat.pos_of_mul_pos_left hpos)⟩
  · rintro ⟨hne, ha, hb⟩
    refine List.count_pos_iff.mp ?_
    rw [count_pairs hne]
    exact Nat.mul_pos (List.count_pos_iff.mpr ha) (List.count_pos_iff.mpr hb)

/-! ## Increments -/

namespace RelationshipGraph

/-- No file is left without a neighbour. -/
def NoneBare (g : RelationshipGraph) : Prop := ∀ a ∈ g.edges, a ∈ g.linked

theorem bump_eq (checks : Bool) (g : RelationshipGraph) (e : String × String) :
    g.bump checks e =
      if checks = true ∧ 2 ^ 32 ≤ g.weight e.1 e.2 + 1 then none
      else some ⟨g.edges.insert e.1 (((g.edges.lookup e.1).getD ∅).insert e.2
        ((g.weight e.1 e.2 + 1) % 2 ^ 32))⟩ := by
  have hcount : (((g.edges.lookup e.1).getD ∅).lookup e.2).getD 0 = g.weight e.1 e.2 := by
    rw [weight, entry]
    cases g.edges.lookup e.1 with
    | none => rfl
    | some neighbors => rfl
  rw [← hcount]
  rfl

theorem entry_insert (g : RelationshipGraph) (a b : String) (w : Nat) (x y : String) :
    (RelationshipGraph.mk (g.edges.insert a (((g.edges.lookup a).getD ∅).insert b w))).entry x y =
      if (a, b) = (x, y) then some w else g.entry x y := by
  rw [entry, entry]
  dsimp only
  rcases eq_or_ne x a with rfl | hax
  · rw [AList.lookup_insert, Option.bind_some]
    rcases eq_or_ne y b with rfl | hby
    · rw [AList.lookup_insert, if_pos rfl]
    · have hpair : (x, b) ≠ (x, y) := fun h => hby (Prod.mk.inj h).2.symm
      rw [AList.lookup_insert_ne hby, if_neg hpair]
      cases g.edges.lookup x with
      | none => rfl
      | some neighbors => rfl
  · have hpair : (a, b) ≠ (x, y) := fun h => hax (Prod.mk.inj h).1.symm
    rw [AList.lookup_insert_ne hax, if_neg hpair]

/-- An increment panics at the top of a checked count. -/
theorem bump_passes_iff {checks : Bool} {g : RelationshipGraph} {e : String × String} :
    (∃ g', g.bump checks e = some g') ↔ (checks = true → g.weight e.1 e.2 + 1 < 2 ^ 32) := by
  rw [bump_eq]
  split
  · next h =>
      refine iff_of_false ?_ fun hlt => (hlt h.1).not_ge h.2
      rintro ⟨g', hg'⟩
      cases hg'
  · next h =>
      refine iff_of_true ⟨_, rfl⟩ fun hchecks => ?_
      exact Nat.lt_of_not_le fun hle => h ⟨hchecks, hle⟩

theorem entry_bump {checks : Bool} {g g' : RelationshipGraph} {e : String × String}
    (h : g.bump checks e = some g') (a b : String) :
    g'.entry a b = if e = (a, b) then some ((g.weight a b + 1) % 2 ^ 32) else g.entry a b := by
  rw [bump_eq] at h
  split at h
  · cases h
  · obtain rfl := Option.some.inj h
    rw [entry_insert]
    split
    · next heq =>
        cases heq
        rfl
    · rfl

theorem weight_bump {checks : Bool} {g g' : RelationshipGraph} {e : String × String}
    (h : g.bump checks e = some g') (a b : String) :
    g'.weight a b = if e = (a, b) then (g.weight a b + 1) % 2 ^ 32 else g.weight a b := by
  rw [weight, entry_bump h]
  split <;> rfl

theorem noneBare_bump {checks : Bool} {g g' : RelationshipGraph} {e : String × String}
    (h : g.bump checks e = some g') (hg : g.NoneBare) : g'.NoneBare := by
  have hentry := entry_bump h
  have hself : g'.Edge e.1 e.2 := by
    rw [Edge, hentry, if_pos rfl]
    rfl
  rw [bump_eq] at h
  split at h
  · cases h
  · have hedges := congrArg edges (Option.some.inj h)
    intro a ha
    rw [← hedges] at ha
    rcases (AList.mem_insert _).mp ha with rfl | ha
    · exact ⟨e.2, hself⟩
    · obtain ⟨b, hb⟩ := hg a ha
      refine ⟨b, ?_⟩
      rw [Edge, hentry]
      split
      · rfl
      · exact hb

/-- What a list of increments does to an edge. -/
theorem entry_foldlM {checks : Bool} {ps : List (String × String)} {g g' : RelationshipGraph}
    (h : ps.foldlM (bump checks) g = some g') (a b : String) :
    g'.entry a b =
      if (a, b) ∈ ps then some ((g.weight a b + ps.count (a, b)) % 2 ^ 32) else g.entry a b := by
  induction ps generalizing g with
  | nil =>
      obtain rfl := Option.some.inj h
      rfl
  | cons e ps ih =>
      rw [List.foldlM_cons] at h
      obtain ⟨g₁, hbump, hrest⟩ := Option.bind_eq_some_iff.mp h
      rw [ih hrest, weight_bump hbump, entry_bump hbump, List.count_cons]
      simp only [beq_iff_eq, List.mem_cons]
      by_cases he : e = (a, b)
      · rw [if_pos he, if_pos he, if_pos he, if_pos (Or.inl he.symm)]
        split
        · rw [Nat.mod_add_mod, Nat.add_assoc, Nat.add_comm 1]
        · next hnot => rw [List.count_eq_zero_of_not_mem hnot, Nat.zero_add]
      · rw [if_neg he, if_neg he, if_neg he, Nat.add_zero]
        simp only [Ne.symm he, false_or]

/-- A checked increment, and those that are still to come. -/
theorem weight_add_count {g g' : RelationshipGraph} {e : String × String}
    (h : g.bump true e = some g') (ps : List (String × String)) (e' : String × String) :
    g'.weight e'.1 e'.2 + ps.count e' = g.weight e'.1 e'.2 + (e :: ps).count e' := by
  have hlt := bump_passes_iff.mp ⟨g', h⟩ rfl
  rw [weight_bump h]
  rcases eq_or_ne e e' with rfl | hne
  · rw [if_pos rfl, List.count_cons_self, Nat.mod_eq_of_lt hlt]
    omega
  · rw [if_neg hne, List.count_cons_of_ne hne]

/-- The increments of a list pass exactly when no checked count goes beyond its top. -/
theorem foldlM_passes_iff {checks : Bool} {ps : List (String × String)} {g : RelationshipGraph} :
    (∃ g', ps.foldlM (bump checks) g = some g') ↔
      (checks = true → ∀ e ∈ ps, g.weight e.1 e.2 + ps.count e < 2 ^ 32) := by
  induction ps generalizing g with
  | nil => exact iff_of_true ⟨g, rfl⟩ fun _ _ h => absurd h List.not_mem_nil
  | cons e ps ih =>
      rw [List.foldlM_cons]
      constructor
      · rintro ⟨g₂, h⟩ rfl e' he'
        obtain ⟨g₁, hbump, hrest⟩ := Option.bind_eq_some_iff.mp h
        rw [← weight_add_count hbump]
        by_cases hmem : e' ∈ ps
        · exact ih.mp ⟨g₂, hrest⟩ rfl e' hmem
        · obtain rfl := (List.mem_cons.mp he').resolve_right hmem
          rw [List.count_eq_zero_of_not_mem hmem, weight_bump hbump, if_pos rfl]
          exact Nat.mod_lt _ (Nat.two_pow_pos 32)
      · intro h
        have hfirst : checks = true → g.weight e.1 e.2 + 1 < 2 ^ 32 := by
          intro hchecks
          have hlt := h hchecks e List.mem_cons_self
          rw [List.count_cons_self] at hlt
          omega
        obtain ⟨g₁, hbump⟩ := bump_passes_iff.mpr hfirst
        have hrest : checks = true → ∀ e' ∈ ps, g₁.weight e'.1 e'.2 + ps.count e' < 2 ^ 32 := by
          rintro rfl e' he'
          rw [weight_add_count hbump]
          exact h rfl e' (List.mem_cons_of_mem _ he')
        obtain ⟨g₂, hg₂⟩ := ih.mpr hrest
        exact ⟨g₂, Option.bind_eq_some_iff.mpr ⟨g₁, hbump, hg₂⟩⟩

theorem noneBare_foldlM {checks : Bool} {ps : List (String × String)} {g g' : RelationshipGraph}
    (h : ps.foldlM (bump checks) g = some g') (hg : g.NoneBare) : g'.NoneBare := by
  induction ps generalizing g with
  | nil =>
      obtain rfl := Option.some.inj h
      exact hg
  | cons e ps ih =>
      obtain ⟨g₁, hbump, hrest⟩ := Option.bind_eq_some_iff.mp h
      exact ih hrest (noneBare_bump hbump hg)

/-! ## Forgetting -/

theorem entry_forgetPrefix (g : RelationshipGraph) (pre a b : String) :
    (g.forgetPrefix pre).entry a b =
      if (startsWith a pre || startsWith b pre) = true then none else g.entry a b := by
  rw [entry, forgetPrefix, AList.lookup_mapValues, AList.lookup_retain, entry]
  cases g.edges.lookup a with
  | none => split <;> rfl
  | some neighbors =>
      cases ha : startsWith a pre with
      | true =>
          rw [Option.filter_some_neg (by simp)]
          rfl
      | false =>
          rw [Option.filter_some_pos (by simp), Option.map_some, Option.bind_some,
            AList.lookup_retain, Bool.false_or]
          cases hentry : neighbors.lookup b with
          | none => split <;> simp [hentry]
          | some w => cases startsWith b pre <;> simp [hentry]

theorem mem_forgetPrefix {g : RelationshipGraph} {pre a : String} :
    a ∈ (g.forgetPrefix pre).edges ↔ a ∈ g.edges ∧ startsWith a pre = false := by
  rw [← AList.lookup_isSome, ← AList.lookup_isSome, forgetPrefix, AList.lookup_mapValues,
    AList.lookup_retain]
  cases g.edges.lookup a with
  | none => simp
  | some neighbors => cases startsWith a pre <;> simp

theorem edge_forgetPrefix {g : RelationshipGraph} {pre a b : String} :
    (g.forgetPrefix pre).Edge a b ↔
      g.Edge a b ∧ startsWith a pre = false ∧ startsWith b pre = false := by
  rw [Edge, entry_forgetPrefix, Edge]
  split
  · next h =>
      refine iff_of_false Bool.false_ne_true ?_
      rintro ⟨-, ha, hb⟩
      rw [ha, hb] at h
      cases h
  · next h =>
      have hboth := Bool.or_eq_false_iff.mp (Bool.eq_false_iff.mpr h)
      exact ⟨fun hedge => ⟨hedge, hboth⟩, fun hedge => hedge.1⟩

/-! ## The length -/

theorem mem_edges_of_edge {g : RelationshipGraph} {a b : String} (h : g.Edge a b) :
    a ∈ g.edges := by
  rw [Edge, entry] at h
  obtain ⟨w, hw⟩ := Option.isSome_iff_exists.mp h
  obtain ⟨neighbors, hlookup, -⟩ := Option.bind_eq_some_iff.mp hw
  exact AList.lookup_isSome.mp (Option.isSome_iff_exists.mpr ⟨neighbors, hlookup⟩)

/-- The length is the number of related files exactly when every file has a neighbour. -/
theorem len_eq_iff {g : RelationshipGraph} : g.len = g.linked.ncard ↔ g.NoneBare := by
  have hcard : g.len = (g.edges.keys.toFinset : Set String).ncard := by
    have hnodup : g.edges.keys.Nodup := g.edges.nodupKeys
    rw [Set.ncard_coe_finset, List.toFinset_card_of_nodup hnodup, len]
    exact (List.length_map _).symm
  have hsub : g.linked ⊆ (g.edges.keys.toFinset : Set String) := by
    rintro a ⟨b, hb⟩
    exact List.mem_toFinset.mpr (AList.mem_keys.mp (mem_edges_of_edge hb))
  constructor
  · intro h a ha
    have heq := Set.eq_of_subset_of_ncard_le hsub (by rw [← hcard, h])
    rw [heq]
    exact List.mem_toFinset.mpr (AList.mem_keys.mp ha)
  · intro h
    rw [hcard]
    congr 1
    refine Set.Subset.antisymm (fun a ha => ?_) hsub
    exact h a (AList.mem_keys.mpr (List.mem_toFinset.mp ha))

/-! ## The related files -/

instance : Std.Total InOrder where
  total := by
    intro x y
    rw [InOrder, InOrder]
    rcases lt_trichotomy x.2 y.2 with hlt | heq | hgt
    · exact Or.inr (Or.inl hlt)
    · exact (le_total x.1 y.1).imp (fun h => Or.inr ⟨heq, h⟩) fun h => Or.inr ⟨heq.symm, h⟩
    · exact Or.inl (Or.inl hgt)

instance : IsTrans (String × Nat) InOrder where
  trans := by
    rintro x y z (hxy | ⟨hxy, hx⟩) (hyz | ⟨hyz, hy⟩)
    · exact Or.inl (hyz.trans hxy)
    · exact Or.inl (hyz ▸ hxy)
    · exact Or.inl (hxy ▸ hyz)
    · exact Or.inr ⟨hxy.trans hyz, hx.trans hy⟩

theorem mem_neighbors {g : RelationshipGraph} {path b : String} {w : Nat} :
    (b, w) ∈ g.neighbors path ↔ g.entry path b = some w := by
  rw [neighbors, entry]
  cases g.edges.lookup path with
  | none => exact iff_of_false List.not_mem_nil nofun
  | some m =>
      rw [Option.bind_some]
      refine Iff.trans ?_ AList.mem_lookup_iff.symm
      constructor
      · intro h
        obtain ⟨e, he, heq⟩ := List.mem_map.mp h
        cases heq
        exact he
      · intro h
        exact List.mem_map.mpr ⟨_, h, rfl⟩

theorem nodup_neighbors (g : RelationshipGraph) (path : String) :
    ((g.neighbors path).map Prod.fst).Nodup := by
  rw [neighbors]
  cases g.edges.lookup path with
  | none => exact List.nodup_nil
  | some m =>
      rw [List.map_map]
      exact m.nodupKeys

/-- Sorted neighbours come the heavier first, when their names are different. -/
theorem pairwise_heavier {l : List (String × Nat)} (hnames : (l.map Prod.fst).Nodup) :
    (l.insertionSort InOrder).Pairwise Heavier := by
  have hsorted := List.pairwise_insertionSort InOrder l
  have hdistinct := ((List.perm_insertionSort InOrder l).map Prod.fst).nodup_iff.mpr hnames
  refine (hsorted.and (List.pairwise_map.mp hdistinct)).imp ?_
  rintro x y ⟨hlt | ⟨heq, hle⟩, hne⟩
  · exact Or.inl hlt
  · exact Or.inr ⟨heq, lt_of_le_of_ne hle hne⟩

/-- The first of a list, and what is left over. -/
theorem exists_take {α : Type} (l : List α) (k : Nat) :
    ∃ rest, l.take k ++ rest = l ∧ (l.take k).length ≤ k ∧ (rest = [] ∨ (l.take k).length = k) := by
  refine ⟨l.drop k, List.take_append_drop k l, List.length_take_le k l, ?_⟩
  rcases le_total l.length k with hle | hle
  · exact Or.inl (List.drop_eq_nil_of_le hle)
  · exact Or.inr (List.length_take_of_le hle)

/-- The related files are the heaviest neighbours, in whatever order the map gives them. -/
theorem related_heaviest (g : RelationshipGraph) (it : Iteration) (path : String) (k : Nat) :
    Heaviest g path k (g.related it path k) := by
  have hgiven := it.perm (g.neighbors path)
  have hperm := (List.perm_insertionSort InOrder (it.order (g.neighbors path))).trans hgiven
  have hnames := (hgiven.map Prod.fst).nodup_iff.mpr (g.nodup_neighbors path)
  obtain ⟨rest, hsplit, hle, hrest⟩ :=
    exists_take ((it.order (g.neighbors path)).insertionSort InOrder) k
  refine ⟨rest, ?_, fun b w => ?_, hle, hrest⟩
  · rw [related, hsplit]
    exact pairwise_heavier hnames
  · rw [related, hsplit, hperm.mem_iff]
    exact mem_neighbors

end RelationshipGraph

/-! ## Sessions -/

theorem sessions_concat (a b : String) (acts : List Act) (act : Act) :
    sessions a b (acts ++ [act]) =
      if act.touches a b = true then 0
      else sessions a b acts + if act.opens a b = true then 1 else 0 := by
  rw [sessions, List.reverse_concat, List.takeWhile_cons]
  split
  · next h =>
      rw [if_neg (by simpa using h), List.countP_cons]
      rfl
  · next h =>
      rw [if_pos (by simpa using h)]
      rfl

theorem sessions_record (a b : String) (acts : List Act) (files : List String) :
    sessions a b (acts ++ [.record files]) =
      sessions a b acts + if a ∈ files ∧ b ∈ files then 1 else 0 := by
  have hopens : Act.opens a b (.record files) = true ↔ a ∈ files ∧ b ∈ files := by
    rw [Act.opens, Bool.and_eq_true, decide_eq_true_eq, decide_eq_true_eq]
  rw [sessions_concat, Act.touches, if_neg Bool.false_ne_true]
  simp only [hopens]

theorem sessions_forget (a b : String) (acts : List Act) (pre : String) :
    sessions a b (acts ++ [.forget pre]) =
      if (startsWith a pre || startsWith b pre) = true then 0 else sessions a b acts := by
  rw [sessions_concat]
  rfl

/-! ## Which runs count sessions -/

namespace RelationshipGraph

variable {checks : Bool} {g g' : RelationshipGraph} {acts : List Act}

theorem entry_recordCoOpen {files : List String} (h : g.recordCoOpen checks files = some g')
    (a b : String) :
    g'.entry a b =
      if a ≠ b ∧ a ∈ files ∧ b ∈ files then
        some ((g.weight a b + files.count a * files.count b) % 2 ^ 32)
      else g.entry a b := by
  rw [recordCoOpen_eq] at h
  rw [entry_foldlM h]
  simp only [mem_pairs_iff]
  split
  · next hpair => rw [count_pairs hpair.1]
  · rfl

theorem weight_recordCoOpen {files : List String} (h : g.recordCoOpen checks files = some g')
    (a b : String) :
    g'.weight a b =
      if a ≠ b ∧ a ∈ files ∧ b ∈ files then
        (g.weight a b + files.count a * files.count b) % 2 ^ 32
      else g.weight a b := by
  rw [weight, entry_recordCoOpen h]
  split <;> rfl

theorem edge_recordCoOpen {files : List String} (h : g.recordCoOpen checks files = some g')
    {a b : String} : g'.Edge a b ↔ (a ≠ b ∧ a ∈ files ∧ b ∈ files) ∨ g.Edge a b := by
  rw [Edge, entry_recordCoOpen h, Edge]
  split
  · next hpair => exact iff_of_true rfl (Or.inl hpair)
  · next hpair => exact (or_iff_right hpair).symm

theorem recordCoOpen_passes_iff {files : List String} :
    (∃ g', g.recordCoOpen checks files = some g') ↔
      (checks = true → ∀ a ∈ files, ∀ b ∈ files, a ≠ b →
        g.weight a b + files.count a * files.count b < 2 ^ 32) := by
  rw [recordCoOpen_eq, foldlM_passes_iff]
  refine forall_congr' fun _ => ?_
  constructor
  · intro h a ha b hb hne
    have hlt := h (a, b) (mem_pairs_iff.mpr ⟨hne, ha, hb⟩)
    rwa [count_pairs hne] at hlt
  · rintro h ⟨a, b⟩ hmem
    obtain ⟨hne, ha, hb⟩ := mem_pairs_iff.mp hmem
    rw [count_pairs hne]
    exact h a ha b hb hne

/-- What is counted for two files is one session. -/
theorem Countable.count_once {files : List String} (h : g.Countable checks (.record files))
    {a b : String} (hpair : a ≠ b ∧ a ∈ files ∧ b ∈ files) :
    (g.weight a b + files.count a * files.count b) % 2 ^ 32 = g.weight a b + 1 := by
  obtain ⟨hlt, hcount⟩ := h a hpair.2.1 b hpair.2.2 hpair.1
  have hmod : files.count a * files.count b % 2 ^ 32 = 1 := by
    rcases hcount with hone | ⟨-, hmod⟩
    · rw [hone]
      rfl
    · exact hmod
  rw [Nat.add_mod, hmod, Nat.mod_eq_of_lt (Nat.lt_of_succ_lt hlt), Nat.mod_eq_of_lt hlt]

theorem tallied_record {files : List String} (h : Tallied g acts)
    (hcount : g.Countable checks (.record files))
    (hrecord : g.recordCoOpen checks files = some g') : Tallied g' (acts ++ [.record files]) where
  symmetric := by
    intro a b hedge
    rcases (edge_recordCoOpen hrecord).mp hedge with ⟨hne, ha, hb⟩ | hedge
    · exact (edge_recordCoOpen hrecord).mpr (Or.inl ⟨hne.symm, hb, ha⟩)
    · exact (edge_recordCoOpen hrecord).mpr (Or.inr (h.symmetric a b hedge))
  irreflexive := by
    intro a hedge
    rcases (edge_recordCoOpen hrecord).mp hedge with ⟨hne, -⟩ | hedge
    · exact hne rfl
    · exact h.irreflexive a hedge
  weight_eq := by
    intro a b hne
    rw [weight_recordCoOpen hrecord, sessions_record, ← h.weight_eq a b hne]
    by_cases hboth : a ∈ files ∧ b ∈ files
    · rw [if_pos ⟨hne, hboth⟩, if_pos hboth, hcount.count_once ⟨hne, hboth⟩]
    · rw [if_neg (fun hpair => hboth hpair.2), if_neg hboth, Nat.add_zero]
  weight_pos := by
    intro a b hedge
    rw [weight_recordCoOpen hrecord]
    split
    · next hpair =>
        rw [hcount.count_once hpair]
        exact Nat.succ_pos _
    · next hpair =>
        exact h.weight_pos a b (((edge_recordCoOpen hrecord).mp hedge).resolve_left hpair)
  len_eq := by
    rw [recordCoOpen_eq] at hrecord
    exact len_eq_iff.mpr (noneBare_foldlM hrecord (len_eq_iff.mp h.len_eq))
  heaviest := g'.related_heaviest

/-- A session that is counted is counted once for every two files. -/
theorem countable_of_tallied {files : List String} (h : Tallied g acts)
    (hrecord : g.recordCoOpen checks files = some g')
    (hafter : Tallied g' (acts ++ [.record files])) : g.Countable checks (.record files) := by
  intro a ha b hb hne
  have hweight := hafter.weight_eq a b hne
  rw [weight_recordCoOpen hrecord, if_pos ⟨hne, ha, hb⟩, sessions_record, if_pos ⟨ha, hb⟩,
    ← h.weight_eq a b hne] at hweight
  have hpasses := recordCoOpen_passes_iff.mp ⟨g', hrecord⟩
  cases checks with
  | false => exact ⟨by omega, Or.inr ⟨rfl, by omega⟩⟩
  | true =>
      have hlt := hpasses rfl a ha b hb hne
      exact ⟨by omega, Or.inl (by omega)⟩

theorem tallied_record_iff (h : Tallied g acts) (files : List String) :
    (∃ g', g.recordCoOpen checks files = some g' ∧ Tallied g' (acts ++ [.record files])) ↔
      g.Countable checks (.record files) := by
  constructor
  · rintro ⟨g', hrecord, hafter⟩
    exact countable_of_tallied h hrecord hafter
  · intro hcount
    have hfits : checks = true → ∀ a ∈ files, ∀ b ∈ files, a ≠ b →
        g.weight a b + files.count a * files.count b < 2 ^ 32 := by
      rintro rfl a ha b hb hne
      obtain ⟨hlt, hone | ⟨hchecks, -⟩⟩ := hcount a ha b hb hne
      · rw [hone]
        exact hlt
      · cases hchecks
    obtain ⟨g', hrecord⟩ := recordCoOpen_passes_iff.mpr hfits
    exact ⟨g', hrecord, tallied_record h hcount hrecord⟩

/-- Forgetting leaves no file bare when each that is not forgotten keeps a neighbour. -/
theorem noneBare_forgetPrefix_iff (h : g.NoneBare) (pre : String) :
    (g.forgetPrefix pre).NoneBare ↔ g.Countable checks (.forget pre) := by
  constructor
  · rintro hafter a ha ⟨b, hb⟩
    obtain ⟨c, hc⟩ := hafter a (mem_forgetPrefix.mpr ⟨mem_edges_of_edge hb, ha⟩)
    obtain ⟨hedge, -, hc⟩ := edge_forgetPrefix.mp hc
    exact ⟨c, hedge, hc⟩
  · intro hcount a ha
    obtain ⟨ha, hkept⟩ := mem_forgetPrefix.mp ha
    obtain ⟨b, hedge, hb⟩ := hcount a hkept (h a ha)
    exact ⟨b, edge_forgetPrefix.mpr ⟨hedge, hkept, hb⟩⟩

theorem tallied_forget_iff (h : Tallied g acts) (pre : String) :
    Tallied (g.forgetPrefix pre) (acts ++ [.forget pre]) ↔ g.Countable checks (.forget pre) := by
  rw [← noneBare_forgetPrefix_iff (len_eq_iff.mp h.len_eq), ← len_eq_iff]
  refine ⟨Tallied.len_eq, fun hlen => ⟨?_, ?_, ?_, ?_, hlen, (g.forgetPrefix pre).related_heaviest⟩⟩
  · intro a b hedge
    obtain ⟨hedge, ha, hb⟩ := edge_forgetPrefix.mp hedge
    exact edge_forgetPrefix.mpr ⟨h.symmetric a b hedge, hb, ha⟩
  · intro a hedge
    exact h.irreflexive a (edge_forgetPrefix.mp hedge).1
  · intro a b hne
    rw [weight, entry_forgetPrefix, sessions_forget]
    split
    · rfl
    · exact h.weight_eq a b hne
  · intro a b hedge
    obtain ⟨hedge, ha, hb⟩ := edge_forgetPrefix.mp hedge
    rw [weight, entry_forgetPrefix, ha, hb, if_neg (by simp)]
    exact h.weight_pos a b hedge

theorem tallied_new : Tallied .new [] where
  symmetric := fun _ _ h => absurd h Bool.false_ne_true
  irreflexive := fun _ h => absurd h Bool.false_ne_true
  weight_eq := fun _ _ _ => rfl
  weight_pos := fun _ _ h => absurd h Bool.false_ne_true
  len_eq := len_eq_iff.mpr fun _ h => absurd h (AList.notMem_empty _)
  heaviest := RelationshipGraph.new.related_heaviest

end RelationshipGraph

namespace Recorded

theorem counts_step_iff (checks : Bool) {s : Recorded} (act : Act) (h : s.Counts) :
    (s.step checks act).Counts ↔ s.Countable checks act := by
  obtain ⟨g, hgraph, htallied⟩ := h
  have hcountable : s.Countable checks act ↔ g.Countable checks act := by
    rw [Countable, hgraph]
    exact ⟨fun h => h g rfl, fun h g' hg' => Option.some.inj hg' ▸ h⟩
  rw [hcountable, Counts, step, hgraph]
  cases act with
  | record files => exact RelationshipGraph.tallied_record_iff htallied files
  | forget pre =>
      rw [← RelationshipGraph.tallied_forget_iff htallied pre]
      constructor
      · rintro ⟨g', hg', hafter⟩
        exact Option.some.inj hg' ▸ hafter
      · intro hafter
        exact ⟨_, rfl, hafter⟩

/-- The runs that count sessions throughout: no call repeats a file beside another one or brings a
count to its top, and none forgets all the neighbours of a file it keeps. -/
theorem tallied_iff (checks : Bool) (acts : List Act) :
    Run.Throughout (step checks) Counts start acts ↔
      Run.Along (step checks) (Countable checks) start acts :=
  Run.throughout_invariant_iff (step checks) (fun _ act h => counts_step_iff checks act h)
    ⟨.new, rfl, RelationshipGraph.tallied_new⟩

/-- One session, in which a file is listed twice, counts for two. -/
theorem repeated_path_counted_twice :
    ¬ Run.Throughout (step true) Counts start [.record ["a", "a", "b"]] := by
  intro h
  obtain ⟨g, hgraph, htallied⟩ := h _ (List.prefix_refl _)
  have hweight := htallied.weight_eq "a" "b" (by decide)
  have hg : g = ((start.step true (.record ["a", "a", "b"])).graph).getD .new := by
    rw [Run.after_cons, Run.after_nil] at hgraph
    rw [hgraph]
    rfl
  rw [hg] at hweight
  revert hweight
  decide +kernel

end Recorded

end Relationships

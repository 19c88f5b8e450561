/-
# `Cognos.Lib.Kahn` — Kahn's topological sort

Every node has a counter of the arcs that still lead to it; a node whose counter is zero is
queued, and a visit takes its arcs off the counters.  In which order what a visit frees is
queued is a parameter (`arrange`).  An arc may be there more than once.

    Sorts            what the visited nodes are: each once, each behind all that has an arc
                     to it, and what is not visited waits for something not visited
    sorts_loop       the loop visits such a list, in as many rounds as there are nodes
    roomy            no visit takes an arc off a counter that is zero
    length_eq_iff    it has all nodes exactly when there is no cycle
-/
import Mathlib
import Cognos.Lib.Digraph

namespace Kahn

open Relation
open Digraph (Acyclic Linear)

variable {α : Type} [DecidableEq α]

/-! ## The loop -/

/-- One arc to `b` is taken off: the counters, and what has come to zero. -/
def relax (st : (α → Nat) × List α) (b : α) : (α → Nat) × List α :=
  (Function.update st.1 b (st.1 b - 1), if st.1 b - 1 = 0 then st.2 ++ [b] else st.2)

/-- The nodes visited, in order. -/
def loop (outs : α → List α) (arrange : List α → List α) :
    Nat → (α → Nat) → List α → List α
  | 0, _, _ => []
  | _ + 1, _, [] => []
  | rounds + 1, counter, a :: queue =>
      let (counter, free) := (outs a).foldl relax (counter, [])
      a :: loop outs arrange rounds counter (queue ++ arrange free)

/-- Every visit of the loop finds its arcs on the counters. -/
def Roomy (outs : α → List α) (arrange : List α → List α) :
    Nat → (α → Nat) → List α → Prop
  | 0, _, _ => True
  | _ + 1, _, [] => True
  | rounds + 1, counter, a :: queue =>
      (∀ b, (outs a).count b ≤ counter b) ∧
        Roomy outs arrange rounds ((outs a).foldl relax (counter, [])).1
          (queue ++ arrange ((outs a).foldl relax (counter, [])).2)

/-- How many arcs lead to `b`. -/
def indegree (nodes : List α) (outs : α → List α) (b : α) : Nat :=
  (nodes.map fun a => (outs a).count b).sum

/-- There is an arc from the node `a` to `b`. -/
def Arc (nodes : List α) (outs : α → List α) (a b : α) : Prop := a ∈ nodes ∧ b ∈ outs a

/-- What the visited nodes are. -/
structure Sorts (nodes : List α) (outs : α → List α) (l : List α) : Prop where
  once : l.Nodup
  known : ∀ a ∈ l, a ∈ nodes
  linear : Linear (Arc nodes outs) l
  blocked : ∀ b ∈ nodes, b ∉ l → ∃ a, Arc nodes outs a b ∧ a ∉ l

/-- Without arcs, the queue is visited as it is. -/
theorem loop_of_no_arcs {outs : α → List α} {arrange : List α → List α} (rounds : Nat)
    (counter : α → Nat) {queue : List α} (hnone : ∀ a ∈ queue, outs a = [])
    (harrange : arrange [] = []) : loop outs arrange rounds counter queue = queue.take rounds := by
  induction rounds generalizing queue with
  | zero => rfl
  | succ rounds ih =>
      cases queue with
      | nil => rfl
      | cons a queue =>
          have hrest : ∀ b ∈ queue, outs b = [] := fun b hb => hnone b (List.mem_cons_of_mem _ hb)
          rw [loop, hnone a List.mem_cons_self, List.take_succ_cons]
          show a :: loop outs arrange rounds counter (queue ++ arrange []) = _
          rw [harrange, List.append_nil, ih hrest]

/-! ## One visit -/

/-- Arcs that the counters have room for are taken off, and what comes to zero is freed once. -/
theorem relax_spec (bs : List α) (counter : α → Nat) (free : List α)
    (hroom : ∀ b, bs.count b ≤ counter b) :
    (∀ b, (bs.foldl relax (counter, free)).1 b = counter b - bs.count b) ∧
      ∃ new, (bs.foldl relax (counter, free)).2 = free ++ new ∧ new.Nodup ∧
        ∀ b, b ∈ new ↔ b ∈ bs ∧ counter b = bs.count b := by
  induction bs generalizing counter free with
  | nil => exact ⟨fun b => rfl, [], by simp, .nil, by simp⟩
  | cons c bs ih =>
      have hc : 1 ≤ counter c := by
        have := hroom c
        rw [List.count_cons_self] at this
        omega
      let counter' := Function.update counter c (counter c - 1)
      have hsame : counter' c = counter c - 1 := Function.update_self _ _ _
      have hother : ∀ b, b ≠ c → counter' b = counter b := fun b hb =>
        Function.update_of_ne hb _ _
      have hroom' : ∀ b, bs.count b ≤ counter' b := by
        intro b
        have hb := hroom b
        rcases eq_or_ne b c with rfl | hne
        · rw [List.count_cons_self] at hb
          rw [hsame]
          omega
        · rw [List.count_cons_of_ne hne.symm] at hb
          rw [hother b hne]
          exact hb
      obtain ⟨hcounter, new, hnew, hnodup, hmem⟩ := ih counter'
        (if counter c - 1 = 0 then free ++ [c] else free) hroom'
      refine ⟨?_, ?_⟩
      · intro b
        show (bs.foldl relax (counter', _)).1 b = _
        rw [hcounter b]
        rcases eq_or_ne b c with rfl | hne
        · rw [hsame, List.count_cons_self]
          omega
        · rw [hother b hne, List.count_cons_of_ne hne.symm]
      · show ∃ new, (bs.foldl relax (counter', _)).2 = _ ∧ _
        have hrest : ∀ b, b ≠ c → (b ∈ new ↔ b ∈ c :: bs ∧ counter b = (c :: bs).count b) := by
          intro b hne
          rw [hmem b, hother b hne, List.count_cons_of_ne hne.symm, List.mem_cons]
          simp [hne]
        by_cases hlast : counter c - 1 = 0
        · -- the last arc to `c`: nothing further in `bs` can free it again
          have hnone : bs.count c = 0 := by
            have := hroom' c
            rw [hsame] at this
            omega
          have hnot : c ∉ new := by
            rw [hmem c]
            exact fun h => (List.count_eq_zero.mp hnone) h.1
          refine ⟨c :: new, ?_, List.nodup_cons.mpr ⟨hnot, hnodup⟩, ?_⟩
          · rw [hnew, if_pos hlast, List.append_assoc]
            rfl
          · intro b
            rcases eq_or_ne b c with rfl | hne
            · refine iff_of_true List.mem_cons_self ⟨List.mem_cons_self, ?_⟩
              rw [List.count_cons_self, hnone]
              omega
            · rw [List.mem_cons, hrest b hne]
              simp [hne]
        · refine ⟨new, ?_, hnodup, ?_⟩
          · rw [hnew, if_neg hlast]
          · intro b
            rcases eq_or_ne b c with rfl | hne
            · rw [hmem b, hsame, List.count_cons_self]
              constructor
              · rintro ⟨-, hcount⟩
                exact ⟨List.mem_cons_self, by omega⟩
              · rintro ⟨-, hcount⟩
                refine ⟨?_, by omega⟩
                rw [← List.count_pos_iff]
                omega
            · exact hrest b hne

/-! ## The invariant -/

/-- How many arcs lead to `b` from nodes that are not done. -/
def remaining (nodes : List α) (outs : α → List α) (done : List α) (b : α) : Nat :=
  ((nodes.filter (· ∉ done)).map fun a => (outs a).count b).sum

structure Inv (nodes : List α) (outs : α → List α) (done queue : List α) (counter : α → Nat) :
    Prop where
  once : (done ++ queue).Nodup
  known : ∀ a ∈ done ++ queue, a ∈ nodes
  linear : Linear (Arc nodes outs) done
  counter_eq : ∀ b ∈ nodes, counter b = remaining nodes outs done b
  zero_iff : ∀ b ∈ nodes, counter b = 0 ↔ b ∈ done ++ queue

section Loop

variable {nodes : List α} {outs : α → List α} {arrange : List α → List α}

theorem remaining_pos_iff {done : List α} {b : α} :
    remaining nodes outs done b ≠ 0 ↔ ∃ a, Arc nodes outs a b ∧ a ∉ done := by
  rw [remaining, Ne, List.sum_eq_zero_iff]
  simp only [List.mem_map, List.mem_filter, decide_eq_true_eq]
  constructor
  · intro h
    by_contra hno
    refine h ?_
    rintro n ⟨a, ⟨ha, hdone⟩, rfl⟩
    rw [List.count_eq_zero]
    intro hb
    exact hno ⟨a, ⟨ha, hb⟩, hdone⟩
  · rintro ⟨a, ⟨ha, hb⟩, hdone⟩ h
    exact List.count_eq_zero.mp (h _ ⟨a, ⟨ha, hdone⟩, rfl⟩) hb

theorem remaining_concat (hnodup : nodes.Nodup) {done : List α} {a : α} (ha : a ∈ nodes)
    (hdone : a ∉ done) (b : α) :
    remaining nodes outs done b = (outs a).count b + remaining nodes outs (done ++ [a]) b := by
  have hperm : (nodes.filter (· ∉ done)).Perm (a :: nodes.filter (· ∉ done ++ [a])) := by
    refine (List.perm_ext_iff_of_nodup (hnodup.filter _) ?_).mpr ?_
    · refine List.nodup_cons.mpr ⟨?_, hnodup.filter _⟩
      simp
    · intro c
      simp only [List.mem_filter, List.mem_cons, List.mem_append, decide_eq_true_eq, not_or,
        List.not_mem_nil, or_false]
      constructor
      · rintro ⟨hc, hcd⟩
        by_cases hca : c = a
        · exact Or.inl hca
        · exact Or.inr ⟨hc, hcd, hca⟩
      · rintro (rfl | ⟨hc, hcd, -⟩)
        · exact ⟨ha, hdone⟩
        · exact ⟨hc, hcd⟩
  rw [remaining, (hperm.map _).sum_eq]
  rfl

variable (hnodup : nodes.Nodup) (hjoined : ∀ a ∈ nodes, ∀ b ∈ outs a, b ∈ nodes)
  (harrange : ∀ l, (arrange l).Perm l)

include hnodup hjoined harrange

omit harrange in
/-- The counters have room for the arcs of the next visit. -/
theorem Inv.room {done queue : List α} {counter : α → Nat} {a : α}
    (h : Inv nodes outs done (a :: queue) counter) (b : α) : (outs a).count b ≤ counter b := by
  have hmem : a ∈ done ++ a :: queue := List.mem_append_right _ List.mem_cons_self
  have ha : a ∈ nodes := h.known a hmem
  have hdone : a ∉ done := fun hin => (List.nodup_append.mp h.once).2.2 a hin a
    List.mem_cons_self rfl
  by_cases hb : b ∈ nodes
  · rw [h.counter_eq b hb, remaining_concat hnodup ha hdone]
    exact Nat.le_add_right _ _
  · rw [List.count_eq_zero.mpr fun hout => hb (hjoined a ha b hout)]
    exact Nat.zero_le _

/-- A visit keeps the invariant. -/
theorem Inv.visit {done queue : List α} {counter : α → Nat} {a : α}
    (h : Inv nodes outs done (a :: queue) counter) :
    Inv nodes outs (done ++ [a])
      (queue ++ arrange ((outs a).foldl relax (counter, [])).2)
      ((outs a).foldl relax (counter, [])).1 := by
  have hqueue : done ++ a :: queue = done ++ [a] ++ queue := by simp
  have hmem : a ∈ done ++ a :: queue := List.mem_append_right _ List.mem_cons_self
  have ha : a ∈ nodes := h.known a hmem
  have hdone : a ∉ done := fun hin => (List.nodup_append.mp h.once).2.2 a hin a
    List.mem_cons_self rfl
  have hroom : ∀ b, (outs a).count b ≤ counter b := h.room hnodup hjoined
  obtain ⟨hcounter, new, hnew, hnewNodup, hnewMem⟩ := relax_spec (outs a) counter [] hroom
  rw [List.nil_append] at hnew
  rw [hnew]
  have hperm := harrange new
  have hzero : ∀ b ∈ done ++ a :: queue, counter b = 0 := fun b hb =>
    (h.zero_iff b (h.known b hb)).mpr hb
  have hfresh : ∀ b ∈ new, b ∉ done ++ a :: queue := by
    intro b hb hin
    obtain ⟨hout, hcount⟩ := (hnewMem b).mp hb
    rw [hzero b hin] at hcount
    exact (List.count_eq_zero.mp hcount.symm) hout
  refine ⟨?_, ?_, ?_, ?_, ?_⟩
  · rw [← List.append_assoc, ← hqueue]
    refine List.nodup_append.mpr ⟨h.once, hperm.nodup_iff.mpr hnewNodup, ?_⟩
    rintro b hb c hc rfl
    exact hfresh b (hperm.mem_iff.mp hc) hb
  · rw [← List.append_assoc, ← hqueue]
    intro b hb
    rcases List.mem_append.mp hb with hb | hb
    · exact h.known b hb
    · exact hjoined a ha b ((hnewMem b).mp (hperm.mem_iff.mp hb)).1
  · refine h.linear.concat fun c hc => ?_
    by_contra hcd
    have hpos := remaining_pos_iff.mpr ⟨c, hc, hcd⟩
    rw [← h.counter_eq a ha, hzero a hmem] at hpos
    exact hpos rfl
  · intro b hb
    rw [hcounter b, h.counter_eq b hb, remaining_concat hnodup ha hdone]
    omega
  · intro b hb
    rw [hcounter b, ← List.append_assoc, ← hqueue, List.mem_append, hperm.mem_iff, hnewMem b,
      ← h.zero_iff b hb]
    have hle := hroom b
    constructor
    · intro hsub
      rcases Nat.eq_zero_or_pos (counter b) with hzero | hpos
      · exact Or.inl hzero
      · right
        refine ⟨List.count_pos_iff.mp (by omega), by omega⟩
    · rintro (hzero | ⟨-, hcount⟩)
      · omega
      · omega

/-- What the loop visits behind what is done. -/
theorem Inv.sorts {done queue : List α} {counter : α → Nat} {rounds : Nat}
    (h : Inv nodes outs done queue counter) (hrounds : nodes.length ≤ done.length + rounds) :
    Sorts nodes outs (done ++ loop outs arrange rounds counter queue) := by
  induction rounds generalizing done queue counter with
  | zero =>
      show Sorts nodes outs (done ++ [])
      have hknown : ∀ a ∈ done, a ∈ nodes := fun a ha => h.known a (List.mem_append_left _ ha)
      have honce : done.Nodup := (List.nodup_append.mp h.once).1
      have hall : done.Perm nodes :=
        (honce.subperm hknown).perm_of_length_le (by simpa using hrounds)
      rw [List.append_nil]
      exact ⟨honce, hknown, h.linear, fun b hb hnot => absurd (hall.mem_iff.mpr hb) hnot⟩
  | succ rounds ih =>
      cases queue with
      | nil =>
          show Sorts nodes outs (done ++ [])
          have honce := h.once
          have hknown := h.known
          rw [List.append_nil] at honce hknown ⊢
          refine ⟨honce, hknown, h.linear, fun b hb hnot => ?_⟩
          refine remaining_pos_iff.mp ?_
          rw [← h.counter_eq b hb, Ne, h.zero_iff b hb, List.append_nil]
          exact hnot
      | cons a queue =>
          have hnext := ih (h.visit hnodup hjoined harrange) (by
            rw [List.length_append, List.length_singleton]
            omega)
          rw [List.append_assoc] at hnext
          exact hnext

/-- No visit of the loop takes an arc off a counter that is zero. -/
theorem Inv.roomy {done queue : List α} {counter : α → Nat} (rounds : Nat)
    (h : Inv nodes outs done queue counter) : Roomy outs arrange rounds counter queue := by
  induction rounds generalizing done queue counter with
  | zero => trivial
  | succ rounds ih =>
      cases queue with
      | nil => trivial
      | cons a queue =>
          exact ⟨h.room hnodup hjoined, ih (h.visit hnodup hjoined harrange)⟩

omit hjoined harrange in
/-- At the start, with the nodes nothing leads to. -/
theorem Inv.start {queue : List α}
    (hqueue : queue.Perm (nodes.filter (indegree nodes outs · = 0))) :
    Inv nodes outs [] queue (indegree nodes outs) := by
  have hmem : ∀ b, b ∈ queue ↔ b ∈ nodes ∧ indegree nodes outs b = 0 := by
    intro b
    rw [hqueue.mem_iff, List.mem_filter, decide_eq_true_eq]
  refine ⟨?_, fun b hb => ((hmem b).mp hb).1, .nil, ?_, ?_⟩
  · exact hqueue.nodup_iff.mpr (hnodup.filter _)
  · intro b _
    rw [remaining, indegree]
    simp
  · intro b hb
    show _ ↔ b ∈ queue
    rw [hmem b]
    exact ⟨fun h => ⟨hb, h⟩, fun h => h.2⟩

/-- The loop from the nodes nothing leads to, with rounds for all nodes and maybe more. -/
theorem sorts_loop {queue : List α} {rounds : Nat}
    (hqueue : queue.Perm (nodes.filter (indegree nodes outs · = 0)))
    (hrounds : nodes.length ≤ rounds) :
    Sorts nodes outs (loop outs arrange rounds (indegree nodes outs) queue) := by
  exact (Inv.start hnodup hqueue).sorts hnodup hjoined harrange (by simpa using hrounds)

/-- Kahn's sort, with a round for each node. -/
theorem sorts_visited {queue : List α}
    (hqueue : queue.Perm (nodes.filter (indegree nodes outs · = 0))) :
    Sorts nodes outs (loop outs arrange nodes.length (indegree nodes outs) queue) :=
  sorts_loop hnodup hjoined harrange hqueue (Nat.le_refl _)

end Loop

/-! ## Complete without a cycle, and only then -/

section Complete

variable {nodes : List α} {outs : α → List α} {l : List α}

/-- In a list that is linear, an arc leads from an earlier place to a later one. -/
theorem idxOf_lt (h : Sorts nodes outs l) {a b : α} (hb : b ∈ l) (hab : Arc nodes outs a b) :
    a ∈ l ∧ l.idxOf a < l.idxOf b := by
  obtain ⟨l₁, l₂, hl, hnot⟩ := List.eq_append_cons_of_mem hb
  have ha : a ∈ l₁ := h.linear l₁ b l₂ hl a hab
  rw [hl]
  refine ⟨List.mem_append_left _ ha, ?_⟩
  rw [List.idxOf_append_of_mem ha, List.idxOf_append_of_notMem hnot, List.idxOf_cons_self,
    Nat.add_zero]
  exact List.idxOf_lt_length_of_mem ha

omit [DecidableEq α] in
theorem Sorts.perm (h : Sorts nodes outs l)
    (hlength : l.length = nodes.length) : l.Perm nodes :=
  (h.once.subperm h.known).perm_of_length_le (Nat.le_of_eq hlength.symm)

/-- All nodes are visited exactly when there is no cycle. -/
theorem length_eq_iff (hnodup : nodes.Nodup)
    (hjoined : ∀ a ∈ nodes, ∀ b ∈ outs a, b ∈ nodes) (h : Sorts nodes outs l) :
    l.length = nodes.length ↔ Acyclic (Arc nodes outs) := by
  constructor
  · intro hlength a ha
    have hall := h.perm hlength
    have hlt : ∀ b, TransGen (Arc nodes outs) a b → l.idxOf a < l.idxOf b := by
      intro b hab
      induction hab with
      | single hab => exact (idxOf_lt h (hall.mem_iff.mpr (hjoined _ hab.1 _ hab.2)) hab).2
      | tail _ hbc ih =>
          exact ih.trans (idxOf_lt h (hall.mem_iff.mpr (hjoined _ hbc.1 _ hbc.2)) hbc).2
    exact lt_irrefl _ (hlt a ha)
  · intro hacyclic
    have hwf : WellFounded (Arc nodes outs) :=
      Digraph.wellFounded hacyclic nodes.toFinset fun x y hxy => List.mem_toFinset.mpr hxy.1
    have hall : ∀ b ∈ nodes, b ∈ l := Digraph.all_of_blocked hwf fun b hb hnot => by
      obtain ⟨a, hab, hal⟩ := h.blocked b hb hnot
      exact ⟨a, hab, hab.1, hal⟩
    exact ((List.perm_ext_iff_of_nodup h.once hnodup).mpr fun b =>
      ⟨h.known b, hall b⟩).length_eq

end Complete

end Kahn

/-
# `Cognos.Lib.KahnPair` — two runs of Kahn's sort

The nodes of two graphs correspond to each other, and so do their arcs.  What a visit frees is
queued by key; nodes of equal keys are queued in any order, and not in the same in both runs.

    freed       what each visit of a run frees
    Alike       of what is freed together, equal keys have arcs to the same nodes
    keys_loop   then the keys of the nodes visited are the same in both runs

Without it they need not be: what two nodes of one key free comes in the order they are visited.
-/
import Mathlib
import Cognos.Lib.Kahn

namespace Kahn

variable {α β κ : Type} [DecidableEq α] [DecidableEq β]

/-! ## What is freed -/

/-- What the visits of the loop free, one list for each. -/
def freed (outs : α → List α) (arrange : List α → List α) :
    Nat → (α → Nat) → List α → List (List α)
  | 0, _, _ => []
  | _ + 1, _, [] => []
  | rounds + 1, counter, a :: queue =>
      let (counter, free) := (outs a).foldl relax (counter, [])
      free :: freed outs arrange rounds counter (queue ++ arrange free)

theorem mem_relaxed (bs : List α) (st : (α → Nat) × List α) {c : α}
    (h : c ∈ (bs.foldl relax st).2) : c ∈ st.2 ∨ c ∈ bs := by
  induction bs generalizing st with
  | nil => exact .inl h
  | cons b bs ih =>
      rcases ih (relax st b) h with hmem | hmem
      · unfold relax at hmem
        simp only at hmem
        split_ifs at hmem
        · rcases List.mem_append.mp hmem with hmem | hmem
          · exact .inl hmem
          · exact .inr (List.mem_singleton.mp hmem ▸ List.mem_cons_self)
        · exact .inl hmem
      · exact .inr (List.mem_cons_of_mem _ hmem)

/-- An arc leads to what is freed. -/
theorem exists_of_mem_freed {outs : α → List α} {arrange : List α → List α} {rounds : Nat}
    {counter : α → Nat} {queue free : List α} (h : free ∈ freed outs arrange rounds counter queue)
    {c : α} (hc : c ∈ free) : ∃ a, c ∈ outs a := by
  induction rounds generalizing counter queue with
  | zero => cases h
  | succ rounds ih =>
      cases queue with
      | nil => cases h
      | cons a queue =>
          rcases List.mem_cons.mp h with rfl | h
          · exact ⟨a, (mem_relaxed _ _ hc).resolve_left List.not_mem_nil⟩
          · exact ih h

/-- Where what is freed comes arranged, the loop is the one that arranges nothing. -/
theorem loop_arranged {outs : α → List α} {arrange : List α → List α} {rounds : Nat}
    {counter : α → Nat} {queue : List α}
    (h : ∀ free ∈ freed outs id rounds counter queue, arrange free = free) :
    loop outs arrange rounds counter queue = loop outs id rounds counter queue := by
  induction rounds generalizing counter queue with
  | zero => rfl
  | succ rounds ih =>
      cases queue with
      | nil => rfl
      | cons a queue =>
          obtain ⟨hfirst, hrest⟩ := List.forall_mem_cons.mp h
          show a :: loop outs arrange rounds _ (queue ++ arrange _) = _
          rw [hfirst]
          exact congrArg (a :: ·) (ih hrest)

/-- Nodes with equal keys have arcs to the same nodes. -/
def Alike (outs : α → List α) (key : α → κ) (free : List α) : Prop :=
  ∀ a ∈ free, ∀ b ∈ free, key a = key b → (outs a).Perm (outs b)

/-! ## Graphs that correspond -/

/-- `f` takes the nodes of the first graph to those of the second, with their arcs and keys. -/
structure Corresponds (f : α → β) (nodes : List α) (outs : α → List α) (outs' : β → List β)
    (key : α → κ) (key' : β → κ) : Prop where
  inj : ∀ a ∈ nodes, ∀ b ∈ nodes, f a = f b → a = b
  closed : ∀ a ∈ nodes, ∀ b ∈ outs a, b ∈ nodes
  outs_perm : ∀ a ∈ nodes, (outs' (f a)).Perm ((outs a).map f)
  key_eq : ∀ a ∈ nodes, key' (f a) = key a

/-- Visited in the two runs at the same time: one key, and arcs to the same nodes. -/
def Twin (f : α → β) (outs : α → List α) (outs' : β → List β) (key : α → κ) (key' : β → κ)
    (a : α) (b : β) : Prop :=
  key a = key' b ∧ (outs' b).Perm ((outs a).map f)

/-- The order in which what is free is queued: by key. -/
structure ByKey (le : κ → κ → Prop) (key : α → κ) (nodes : List α) (arrange : List α → List α) :
    Prop where
  perm : ∀ l, (arrange l).Perm l
  sorted : ∀ l, (∀ a ∈ l, a ∈ nodes) → ((arrange l).map key).Pairwise le

section Pair

variable {f : α → β} {nodes : List α} {outs : α → List α} {outs' : β → List β} {key : α → κ}
  {key' : β → κ} {le : κ → κ → Prop} {arrange : List α → List α} {arrange' : List β → List β}

theorem Corresponds.count (h : Corresponds f nodes outs outs' key key') {a b : α} {d : β}
    (ha : a ∈ nodes) (hb : b ∈ nodes) (hd : (outs' d).Perm ((outs a).map f)) :
    (outs' d).count (f b) = (outs a).count b := by
  rw [hd.count_eq]
  have hmem : ∀ c ∈ outs a, c ∈ nodes := h.closed a ha
  generalize outs a = cs at hmem
  induction cs with
  | nil => rfl
  | cons c cs ih =>
      obtain ⟨hc, hcs⟩ := List.forall_mem_cons.mp hmem
      rw [List.map_cons, List.count_cons, List.count_cons, ih hcs]
      by_cases hcb : c = b
      · rw [hcb]
        simp
      · have hne : f c ≠ f b := fun heq => hcb (h.inj c hc b hb heq)
        rw [if_neg (by simpa using hne), if_neg (by simpa using hcb)]

omit [DecidableEq α] [DecidableEq β] in
/-- Lists that are the same up to order, and sorted by key, have their keys in one order. -/
theorem twins_of_sorted (h : Corresponds f nodes outs outs' key key')
    (hantisymm : ∀ x y, le x y → le y x → x = y) {free : List α} {free' : List β}
    (hknown : ∀ a ∈ free, a ∈ nodes) (hperm : free'.Perm (free.map f))
    (halike : Alike outs key free) {l : List α} {l' : List β} (hl : l.Perm free)
    (hl' : l'.Perm free') (hsorted : (l.map key).Pairwise le)
    (hsorted' : (l'.map key').Pairwise le) : List.Forall₂ (Twin f outs outs' key key') l l' := by
  have hkeys : l.map key = l'.map key' := by
    refine List.Perm.eq_of_pairwise (fun x y _ _ => hantisymm x y) hsorted hsorted' ?_
    have hfree : (free.map f).map key' = free.map key := by
      rw [List.map_map]
      exact List.map_congr_left fun a ha => h.key_eq a (hknown a ha)
    refine (hl.map key).trans ?_
    rw [← hfree]
    exact ((hl'.trans hperm).map key').symm
  -- in one place of the two lists there is one key; the one node and what corresponds to the
  -- other were free together
  have hpair : List.Forall₂ (fun a b => key a = key' b) l l' := by
    have hsame : List.Forall₂ (· = ·) (l.map key) (l'.map key') := by
      rw [hkeys]
      exact List.forall₂_refl _
    exact List.forall₂_map_left_iff.mp (List.forall₂_map_right_iff.mp hsame)
  refine (List.forall₂_iff_zip.mpr ⟨hpair.length_eq, fun {a b} hab => ?_⟩)
  have hkey : key a = key' b := (List.forall₂_iff_zip.mp hpair).2 hab
  have ha : a ∈ free := hl.mem_iff.mp (List.of_mem_zip hab).1
  obtain ⟨c, hc, rfl⟩ := List.mem_map.mp (hperm.mem_iff.mp (hl'.mem_iff.mp (List.of_mem_zip hab).2))
  refine ⟨hkey, ?_⟩
  rw [h.key_eq c (hknown c hc)] at hkey
  exact (h.outs_perm c (hknown c hc)).trans ((halike c hc a ha hkey.symm).map f)

/-- One visit in each run: the counters agree, and what is freed corresponds. -/
theorem visit_pair (h : Corresponds f nodes outs outs' key key') {a : α} {b : β} (ha : a ∈ nodes)
    (htwin : Twin f outs outs' key key' a b) {counter : α → Nat} {counter' : β → Nat}
    (hcounter : ∀ c ∈ nodes, counter' (f c) = counter c)
    (hroom : ∀ c, (outs a).count c ≤ counter c) :
    (∀ c ∈ nodes, ((outs' b).foldl relax (counter', [])).1 (f c) =
        ((outs a).foldl relax (counter, [])).1 c) ∧
      (∀ c ∈ ((outs a).foldl relax (counter, [])).2, c ∈ nodes) ∧
      ((outs' b).foldl relax (counter', [])).2.Perm
        ((((outs a).foldl relax (counter, [])).2).map f) := by
  have hcount : ∀ c ∈ nodes, (outs' b).count (f c) = (outs a).count c := fun c hc =>
    h.count ha hc htwin.2
  have hout : ∀ d ∈ outs' b, ∃ c ∈ outs a, f c = d := fun d hd =>
    List.mem_map.mp (htwin.2.mem_iff.mp hd)
  have hroom' : ∀ d, (outs' b).count d ≤ counter' d := by
    intro d
    by_cases hd : d ∈ outs' b
    · obtain ⟨c, hc, rfl⟩ := hout d hd
      rw [hcount c (h.closed a ha c hc), hcounter c (h.closed a ha c hc)]
      exact hroom c
    · rw [List.count_eq_zero.mpr hd]
      exact Nat.zero_le _
  obtain ⟨hc, new, hnew, hnodup, hmem⟩ := relax_spec (outs a) counter [] hroom
  obtain ⟨hc', new', hnew', hnodup', hmem'⟩ := relax_spec (outs' b) counter' [] hroom'
  rw [List.nil_append] at hnew hnew'
  rw [hnew, hnew']
  have hknown : ∀ c ∈ new, c ∈ nodes := fun c hcnew => h.closed a ha c ((hmem c).mp hcnew).1
  refine ⟨fun c hcn => ?_, hknown, ?_⟩
  · rw [hc' (f c), hc c, hcounter c hcn, hcount c hcn]
  · have hmapped : (new.map f).Nodup :=
      hnodup.map_on fun c hcnew d hdnew => h.inj c (hknown c hcnew) d (hknown d hdnew)
    refine (List.perm_ext_iff_of_nodup hnodup' hmapped).mpr fun d => ?_
    rw [hmem' d, List.mem_map]
    constructor
    · rintro ⟨hd, heq⟩
      obtain ⟨c, hcout, rfl⟩ := hout d hd
      have hcn := h.closed a ha c hcout
      rw [hcounter c hcn, hcount c hcn] at heq
      exact ⟨c, (hmem c).mpr ⟨hcout, heq⟩, rfl⟩
    · rintro ⟨c, hcnew, rfl⟩
      obtain ⟨hcout, heq⟩ := (hmem c).mp hcnew
      have hcn := hknown c hcnew
      rw [hcounter c hcn, hcount c hcn]
      exact ⟨htwin.2.mem_iff.mpr (List.mem_map_of_mem hcout), heq⟩

/-- Two runs, in step: where all that the first frees is alike, they visit the same keys. -/
theorem keys_loop (h : Corresponds f nodes outs outs' key key')
    (hantisymm : ∀ x y, le x y → le y x → x = y) (hby : ByKey le key nodes arrange)
    {nodes' : List β} (hnodes : ∀ a ∈ nodes, f a ∈ nodes') (hby' : ByKey le key' nodes' arrange')
    {rounds : Nat} {counter : α → Nat} {counter' : β → Nat} {queue : List α} {queue' : List β}
    (hknown : ∀ a ∈ queue, a ∈ nodes) (hcounter : ∀ c ∈ nodes, counter' (f c) = counter c)
    (hqueue : List.Forall₂ (Twin f outs outs' key key') queue queue')
    (hroomy : Roomy outs arrange rounds counter queue)
    (halike : ∀ free ∈ freed outs arrange rounds counter queue, Alike outs key free) :
    (loop outs arrange rounds counter queue).map key =
      (loop outs' arrange' rounds counter' queue').map key' := by
  induction rounds generalizing counter counter' queue queue' with
  | zero => rfl
  | succ rounds ih =>
      cases hqueue with
      | nil => rfl
      | @cons a b queue queue' htwin hrest =>
          obtain ⟨ha, hknown⟩ := List.forall_mem_cons.mp hknown
          obtain ⟨hroom, hroomy⟩ := hroomy
          obtain ⟨hfree, halike⟩ := List.forall_mem_cons.mp halike
          obtain ⟨hcounter, hnew, hperm⟩ := visit_pair h ha htwin hcounter hroom
          have hnew' : ∀ d ∈ ((outs' b).foldl relax (counter', [])).2, d ∈ nodes' := by
            intro d hd
            obtain ⟨c, hc, rfl⟩ := List.mem_map.mp (hperm.mem_iff.mp hd)
            exact hnodes c (hnew c hc)
          have htwins := twins_of_sorted h hantisymm hnew hperm hfree (hby.perm _) (hby'.perm _)
            (hby.sorted _ hnew) (hby'.sorted _ hnew')
          show key a :: _ = key' b :: _
          rw [htwin.1]
          refine congrArg (key' b :: ·)
            (ih ?_ hcounter (List.rel_append hrest htwins) hroomy halike)
          intro c hc
          rcases List.mem_append.mp hc with hc | hc
          · exact hknown c hc
          · exact hnew c ((hby.perm _).mem_iff.mp hc)

end Pair

end Kahn

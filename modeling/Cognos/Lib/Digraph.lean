/-
# `Cognos.Lib.Digraph` — reachability and cycles

Directed graphs as lists of arcs.  Three algorithms on them and what they find:

    search     depth-first with a visited set: is there a way to `dst`
    walk       depth-first without one: all that is met on the way, and as often as there
               are ways to it; it ends when there is no cycle (`exists_walk`)
    insert     an arc closes a cycle exactly when there is a way back (`acyclic_insert`)

Where there is no cycle, going along the arcs ends (`wellFounded_flip`), and so does going
against them (`wellFounded`), and a list of nodes each of which comes after all before it
(`Linear`) that leaves no node unblocked has all of them (`all_of_blocked`).
-/
import Mathlib

namespace Digraph

open Relation

variable {α : Type}

/-! ## Cycles -/

/-- No way from a node back to itself. -/
def Acyclic (r : α → α → Prop) : Prop := ∀ a, ¬ TransGen r a a

section Cycles

variable {r : α → α → Prop} {a b : α}

theorem Acyclic.mono {r' : α → α → Prop} (h : Acyclic r') (hsub : ∀ x y, r x y → r' x y) :
    Acyclic r :=
  fun x hx => h x (TransGen.mono hsub x x hx)

/-- A graph under other names has a cycle exactly when it has one. -/
theorem acyclic_iff_of_names {β : Type} {s : β → β → Prop} {f : β → α}
    (hinj : Function.Injective f) (hf : ∀ i j, s i j ↔ r (f i) (f j))
    (honto : ∀ x y, r x y → ∃ j, f j = y) : Acyclic s ↔ Acyclic r := by
  have hsound : ∀ i j, TransGen s i j → TransGen r (f i) (f j) :=
    TransGen.lift f fun i j h => (hf i j).mp h
  have hcomplete : ∀ {i y}, TransGen r (f i) y → ∃ j, f j = y ∧ TransGen s i j := by
    intro i y h
    induction h with
    | single h =>
        obtain ⟨j, rfl⟩ := honto _ _ h
        exact ⟨j, rfl, .single ((hf i j).mpr h)⟩
    | tail _ h ih =>
        obtain ⟨j, rfl, hij⟩ := ih
        obtain ⟨k, rfl⟩ := honto _ _ h
        exact ⟨k, rfl, hij.tail ((hf j k).mpr h)⟩
  constructor
  · intro hs x hx
    obtain ⟨y, hxy, hyx⟩ := TransGen.tail'_iff.mp hx
    obtain ⟨i, rfl⟩ := honto _ _ hyx
    obtain ⟨j, hj, hij⟩ := hcomplete hx
    rw [hinj hj] at hij
    exact hs i hij
  · intro hr i hi
    exact hr (f i) (hsound i i hi)

/-- A way along the old arcs and a new one: along the old ones, or through the new one. -/
theorem transGen_insert {x y : α} (h : TransGen (fun u v => r u v ∨ (u = a ∧ v = b)) x y) :
    TransGen r x y ∨ (ReflTransGen r x a ∧ ReflTransGen r b y) := by
  induction h with
  | single h =>
      rcases h with h | ⟨rfl, rfl⟩
      · exact Or.inl (.single h)
      · exact Or.inr ⟨.refl, .refl⟩
  | tail _ h ih =>
      rcases h with h | ⟨rfl, rfl⟩
      · rcases ih with ih | ⟨hxa, hby⟩
        · exact Or.inl (ih.tail h)
        · exact Or.inr ⟨hxa, hby.tail h⟩
      · rcases ih with ih | ⟨hxa, -⟩
        · exact Or.inr ⟨ih.to_reflTransGen, .refl⟩
        · exact Or.inr ⟨hxa, .refl⟩

/-- A new arc closes a cycle exactly when there is a way back. -/
theorem acyclic_insert (h : Acyclic r) :
    Acyclic (fun u v => r u v ∨ (u = a ∧ v = b)) ↔ ¬ ReflTransGen r b a := by
  constructor
  · intro hins hback
    have hold : ReflTransGen (fun u v => r u v ∨ (u = a ∧ v = b)) b a :=
      ReflTransGen.mono (fun _ _ h => Or.inl h) b a hback
    exact hins a (TransGen.head' (Or.inr ⟨rfl, rfl⟩) hold)
  · intro hback x hx
    rcases transGen_insert hx with hx | ⟨hxa, hbx⟩
    · exact h x hx
    · exact hback (hbx.trans hxa)

/-- Going along the arcs ends: fewer and fewer nodes of the finite set `s` are ahead. -/
theorem wellFounded_flip (h : Acyclic r) (s : Finset α) (hs : ∀ x y, r x y → y ∈ s) :
    WellFounded (flip r) := by
  classical
  let ahead : α → Finset α := fun x => s.filter (TransGen r x)
  refine Subrelation.wf (r := InvImage (· < ·) fun x => (ahead x).card) ?_
    (InvImage.wf _ wellFounded_lt)
  intro y x hxy
  have hxy : r x y := hxy
  refine Finset.card_lt_card ⟨?_, ?_⟩
  · intro z hz
    obtain ⟨hzs, hz⟩ := Finset.mem_filter.mp hz
    exact Finset.mem_filter.mpr ⟨hzs, TransGen.head hxy hz⟩
  · intro hsub
    have hy : y ∈ ahead x := Finset.mem_filter.mpr ⟨hs x y hxy, .single hxy⟩
    exact h y (Finset.mem_filter.mp (hsub hy)).2

/-- Going against the arcs ends. -/
theorem wellFounded (h : Acyclic r) (s : Finset α) (hs : ∀ x y, r x y → x ∈ s) :
    WellFounded r := by
  have hflip : Acyclic (flip r) := by
    intro x hx
    exact h x (transGen_swap.mp hx)
  exact wellFounded_flip hflip s fun x y hxy => hs y x hxy

end Cycles

/-! ## Orders -/

/-- Everything in the list comes after all that has an arc to it. -/
def Linear (r : α → α → Prop) (l : List α) : Prop :=
  ∀ l₁ x l₂, l = l₁ ++ x :: l₂ → ∀ a, r a x → a ∈ l₁

section Orders

variable {r : α → α → Prop} {l : List α}

theorem Linear.nil : Linear r [] := by
  intro l₁ x l₂ h
  cases l₁ <;> cases h

theorem Linear.concat (h : Linear r l) {x : α} (hx : ∀ a, r a x → a ∈ l) : Linear r (l ++ [x]) := by
  intro l₁ y l₂ heq a ha
  rcases List.eq_nil_or_concat l₂ with rfl | ⟨l₂, z, rfl⟩
  · obtain ⟨rfl, hxy⟩ := List.append_inj' heq rfl
    cases hxy
    exact hx a ha
  · have heq : l ++ [x] = (l₁ ++ y :: l₂) ++ [z] := by
      rw [heq, List.concat_eq_append, List.append_assoc, List.cons_append]
    exact h l₁ y l₂ (List.append_inj' heq rfl).1 a ha

/-- Where each node not yet in has a predecessor not yet in, all are in. -/
theorem all_of_blocked (hwf : WellFounded r) {nodes done : α → Prop}
    (h : ∀ x, nodes x → ¬ done x → ∃ a, r a x ∧ nodes a ∧ ¬ done a) (x : α) (hx : nodes x) :
    done x := by
  induction x using hwf.induction with
  | _ x ih =>
      by_contra hnot
      obtain ⟨a, ha, hnode, hdone⟩ := h x hx hnot
      exact hdone (ih a ha hnode)

end Orders

/-! ## Arcs as a list -/

/-- There is an arc from `a` to `b`. -/
def Arc (arcs : List (α × α)) (a b : α) : Prop := (a, b) ∈ arcs

theorem Arc.wellFounded_flip [DecidableEq α] {arcs : List (α × α)} (h : Acyclic (Arc arcs)) :
    WellFounded (flip (Arc arcs)) :=
  Digraph.wellFounded_flip h (arcs.map Prod.snd).toFinset fun _ _ hxy =>
    List.mem_toFinset.mpr (List.mem_map_of_mem hxy)

theorem Arc.wellFounded [DecidableEq α] {arcs : List (α × α)} (h : Acyclic (Arc arcs)) :
    WellFounded (Arc arcs) :=
  Digraph.wellFounded h (arcs.map Prod.fst).toFinset fun _ _ hxy =>
    List.mem_toFinset.mpr (List.mem_map_of_mem hxy)

variable [DecidableEq α] (arcs : List (α × α))

/-- The ends of the arcs from `a`, in order. -/
def next (a : α) : List α := (arcs.filter (·.1 = a)).map (·.2)

variable {arcs}

@[simp] theorem mem_next {a b : α} : b ∈ next arcs a ↔ Arc arcs a b := by
  simp only [next, Arc, List.mem_map, List.mem_filter, decide_eq_true_eq]
  constructor
  · rintro ⟨⟨x, y⟩, ⟨hmem, rfl⟩, rfl⟩
    exact hmem
  · intro h
    exact ⟨(a, b), ⟨h, rfl⟩, rfl⟩

/-! ## Search -/

/-- The search for `dst`: a node met again is passed over, the successors of a new one go on
the stack. -/
def search (arcs : List (α × α)) (dst : α) : Nat → List α → List α → Bool
  | 0, _, _ => false
  | _ + 1, _, [] => false
  | rounds + 1, visited, cur :: stack =>
      if cur ∈ visited then search arcs dst rounds visited stack
      else if dst ∈ next arcs cur then true
      else search arcs dst rounds (cur :: visited) ((next arcs cur).reverse ++ stack)

theorem search_sound {dst : α} {rounds : Nat} {visited stack : List α}
    (h : search arcs dst rounds visited stack = true) :
    ∃ a ∈ stack, TransGen (Arc arcs) a dst := by
  induction rounds generalizing visited stack with
  | zero => cases h
  | succ rounds ih =>
      cases stack with
      | nil => cases h
      | cons cur stack =>
          rw [search] at h
          split_ifs at h with hseen hdst
          · obtain ⟨a, ha, hway⟩ := ih h
            exact ⟨a, List.mem_cons_of_mem _ ha, hway⟩
          · exact ⟨cur, List.mem_cons_self, .single (mem_next.mp hdst)⟩
          · obtain ⟨a, ha, hway⟩ := ih h
            rcases List.mem_append.mp ha with ha | ha
            · have harc : Arc arcs cur a := mem_next.mp (List.mem_reverse.mp ha)
              exact ⟨cur, List.mem_cons_self, .head harc hway⟩
            · exact ⟨a, List.mem_cons_of_mem _ ha, hway⟩

/-- The arcs that can still go on the stack. -/
def unspent (arcs : List (α × α)) (visited : List α) : Nat :=
  (arcs.filter (·.1 ∉ visited)).length

/-- A newly visited node spends its arcs. -/
theorem unspent_cons {visited : List α} {cur : α} (h : cur ∉ visited) :
    unspent arcs (cur :: visited) + (next arcs cur).length = unspent arcs visited := by
  simp only [unspent, next, List.length_map]
  induction arcs with
  | nil => rfl
  | cons p arcs ih =>
      obtain ⟨x, y⟩ := p
      by_cases hx : x = cur
      · subst hx
        simp only [List.filter_cons, List.mem_cons, true_or, not_true_eq_false, decide_false,
          decide_true, h, not_false_eq_true, if_true, List.length_cons] at ih ⊢
        simp only [Bool.false_eq_true, if_false]
        omega
      · by_cases hv : x ∈ visited
        · simpa [List.filter_cons, hx, hv] using ih
        · simp only [List.filter_cons, List.mem_cons, hx, hv, or_self, not_false_eq_true,
            decide_true, decide_false, if_true, List.length_cons] at ih ⊢
          simp only [Bool.false_eq_true, if_false]
          omega

/-- What is visited has been dealt with: no successor is `dst`, and each is visited or waits. -/
def Settled (arcs : List (α × α)) (dst : α) (visited stack : List α) : Prop :=
  ∀ a ∈ visited, ∀ b, Arc arcs a b → b ≠ dst ∧ (b ∈ visited ∨ b ∈ stack)

/-- A search with rounds to spare that finds nothing has looked at every way. -/
theorem search_complete {dst : α} {rounds : Nat} {visited stack : List α}
    (hrounds : unspent arcs visited + stack.length < rounds)
    (hsettled : Settled arcs dst visited stack)
    (h : search arcs dst rounds visited stack = false) :
    ∀ a, a ∈ visited ∨ a ∈ stack → ¬ TransGen (Arc arcs) a dst := by
  induction rounds generalizing visited stack with
  | zero => exact absurd hrounds (Nat.not_lt_zero _)
  | succ rounds ih =>
      cases stack with
      | nil =>
          intro a ha hway
          induction hway using TransGen.head_induction_on with
          | single harc =>
              have hvisited := ha.resolve_right List.not_mem_nil
              exact (hsettled _ hvisited _ harc).1 rfl
          | head harc _ ih =>
              have hvisited := ha.resolve_right List.not_mem_nil
              exact ih (hsettled _ hvisited _ harc).2
      | cons cur stack =>
          rw [search] at h
          split_ifs at h with hseen hdst
          · have hrest : Settled arcs dst visited stack := by
              intro a ha b hab
              obtain ⟨hne, hb⟩ := hsettled a ha b hab
              refine ⟨hne, ?_⟩
              rcases hb with hb | hb
              · exact Or.inl hb
              · rcases List.mem_cons.mp hb with rfl | hb
                · exact Or.inl hseen
                · exact Or.inr hb
            have hleft : unspent arcs visited + stack.length < rounds := by
              rw [List.length_cons] at hrounds
              omega
            intro a ha
            refine ih hleft hrest h a ?_
            rcases ha with ha | ha
            · exact Or.inl ha
            · rcases List.mem_cons.mp ha with rfl | ha
              · exact Or.inl hseen
              · exact Or.inr ha
          · have hrest : Settled arcs dst (cur :: visited) ((next arcs cur).reverse ++ stack) := by
              intro a ha b hab
              rcases List.mem_cons.mp ha with rfl | ha
              · have hb : b ∈ next arcs a := mem_next.mpr hab
                refine ⟨fun hbd => hdst (hbd ▸ hb), Or.inr ?_⟩
                exact List.mem_append_left _ (List.mem_reverse.mpr hb)
              · obtain ⟨hne, hb⟩ := hsettled a ha b hab
                refine ⟨hne, ?_⟩
                rcases hb with hb | hb
                · exact Or.inl (List.mem_cons_of_mem _ hb)
                · rcases List.mem_cons.mp hb with rfl | hb
                  · exact Or.inl List.mem_cons_self
                  · exact Or.inr (List.mem_append_right _ hb)
            have hleft : unspent arcs (cur :: visited) +
                ((next arcs cur).reverse ++ stack).length < rounds := by
              have hspent : unspent arcs (cur :: visited) + (next arcs cur).length = _ :=
                unspent_cons hseen
              rw [List.length_cons] at hrounds
              rw [List.length_append, List.length_reverse]
              omega
            intro a ha
            refine ih hleft hrest h a ?_
            rcases ha with ha | ha
            · exact Or.inl (List.mem_cons_of_mem _ ha)
            · rcases List.mem_cons.mp ha with rfl | ha
              · exact Or.inl List.mem_cons_self
              · exact Or.inr (List.mem_append_right _ ha)

/-- From one node and with a round for each arc and two more, the search decides. -/
theorem search_iff {src dst : α} {rounds : Nat} (hrounds : arcs.length + 1 < rounds) :
    search arcs dst rounds [] [src] = true ↔ TransGen (Arc arcs) src dst := by
  constructor
  · intro h
    obtain ⟨a, ha, hway⟩ := search_sound h
    rw [List.mem_singleton] at ha
    exact ha ▸ hway
  · intro hway
    by_contra hfound
    rw [Bool.not_eq_true] at hfound
    have hle : unspent arcs [] ≤ arcs.length := List.length_filter_le _ _
    have hleft : unspent arcs [] + [src].length < rounds := by
      rw [List.length_singleton]
      omega
    have hnone : Settled arcs dst [] [src] := fun a ha => absurd ha List.not_mem_nil
    exact search_complete hleft hnone hfound src (Or.inr List.mem_cons_self) hway

/-! ## Walk -/

/-- All that is met going along the arcs from the frontier, behind what was met before. -/
def walk (arcs : List (α × α)) : Nat → (frontier met : List α) → Option (List α)
  | _, [], met => some met
  | 0, _ :: _, _ => none
  | rounds + 1, cur :: frontier, met =>
      walk arcs rounds ((next arcs cur).reverse ++ frontier) (met ++ next arcs cur)

theorem mem_walk {rounds : Nat} {frontier met l : List α}
    (h : walk arcs rounds frontier met = some l) (x : α) :
    x ∈ l ↔ x ∈ met ∨ ∃ a ∈ frontier, TransGen (Arc arcs) a x := by
  induction rounds generalizing frontier met with
  | zero =>
      cases frontier with
      | nil =>
          cases h
          simp
      | cons cur frontier => cases h
  | succ rounds ih =>
      cases frontier with
      | nil =>
          cases h
          simp
      | cons cur frontier =>
          rw [ih h, List.mem_append, mem_next]
          constructor
          · rintro ((hx | harc) | ⟨a, ha, hway⟩)
            · exact Or.inl hx
            · exact Or.inr ⟨cur, List.mem_cons_self, .single harc⟩
            · rcases List.mem_append.mp ha with ha | ha
              · have harc : Arc arcs cur a := mem_next.mp (List.mem_reverse.mp ha)
                exact Or.inr ⟨cur, List.mem_cons_self, .head harc hway⟩
              · exact Or.inr ⟨a, List.mem_cons_of_mem _ ha, hway⟩
          · rintro (hx | ⟨a, ha, hway⟩)
            · exact Or.inl (Or.inl hx)
            · rcases List.mem_cons.mp ha with rfl | ha
              · rcases (TransGen.head'_iff).mp hway with ⟨b, harc, hrest⟩
                rcases reflTransGen_iff_eq_or_transGen.mp hrest with rfl | hrest
                · exact Or.inl (Or.inr harc)
                · have hb : b ∈ (next arcs a).reverse := List.mem_reverse.mpr (mem_next.mpr harc)
                  exact Or.inr ⟨b, List.mem_append_left _ hb, hrest⟩
              · exact Or.inr ⟨a, List.mem_append_right _ ha, hway⟩

/-- Where going along the arcs ends, the walk does. -/
theorem exists_walk_cons {a : α} (ha : Acc (flip (Arc arcs)) a) {frontier : List α}
    (hrest : ∀ met, ∃ rounds l, walk arcs rounds frontier met = some l) (met : List α) :
    ∃ rounds l, walk arcs rounds (a :: frontier) met = some l := by
  induction ha generalizing frontier met with
  | intro a _ ih =>
      have hfront : ∀ bs : List α, (∀ b ∈ bs, Arc arcs a b) →
          ∀ met, ∃ rounds l, walk arcs rounds (bs ++ frontier) met = some l := by
        intro bs
        induction bs with
        | nil => exact fun _ => hrest
        | cons b bs ihbs =>
            intro hbs
            obtain ⟨hb, hbs⟩ := List.forall_mem_cons.mp hbs
            exact fun met => ih b hb (ihbs hbs) met
      have hnext : ∀ b ∈ (next arcs a).reverse, Arc arcs a b := fun b hb =>
        mem_next.mp (List.mem_reverse.mp hb)
      obtain ⟨rounds, l, h⟩ := hfront _ hnext (met ++ next arcs a)
      exact ⟨rounds + 1, l, h⟩

theorem exists_walk (h : Acyclic (Arc arcs)) (src : α) (met : List α) :
    ∃ rounds l, walk arcs rounds [src] met = some l :=
  exists_walk_cons ((Arc.wellFounded_flip h).apply src) (fun met => ⟨0, met, rfl⟩) met

end Digraph

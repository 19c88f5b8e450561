/-
# `Cognos.Lib.BinaryHeap` — Rust's `BinaryHeap`

The heap of `std::collections`, sift by sift: `push` puts the new element at the end and sifts it
up; `pop` puts the last element at the root, sifts it down to the bottom along the greater
children, the right one of two equals, and up again from there.  Only `le`, the `<=` of the
elements, is asked.  Where it is a total preorder, `pop` takes a greatest element (`pop_spec`);
which of several equal ones is a matter of where they are, so the heap is not a queue.

    IsHeap      no element is greater than the one above it
    UpHeap      but for the one at `pos`, which may have to go up
    DownHeap    but for the one at `pos`, which may have to go down
-/
import Mathlib

namespace BinaryHeap

variable {α : Type} (le : α → α → Bool)

/-! ## Operations -/

def parent (i : Nat) : Nat := (i - 1) / 2

/-- The element at `i` is at most the one at `j`. -/
def atMost (v : Array α) (i j : Nat) : Bool :=
  match v[i]?, v[j]? with
  | some a, some b => le a b
  | _, _ => true

/-- `sift_up(0, pos)`, for a number of rounds. -/
def siftUp : Nat → Array α → Nat → Array α
  | 0, v, _ => v
  | rounds + 1, v, pos =>
      if pos = 0 then v
      else if atMost le v pos (parent pos) then v
      else siftUp rounds (v.swapIfInBounds pos (parent pos)) (parent pos)

/-- The way down of `sift_down_to_bottom(pos)`: the elements, and where it ends. -/
def siftDown : Nat → Array α → Nat → Array α × Nat
  | 0, v, pos => (v, pos)
  | rounds + 1, v, pos =>
      let child := 2 * pos + 1
      if child + 1 < v.size then
        let child := if atMost le v child (child + 1) then child + 1 else child
        siftDown rounds (v.swapIfInBounds pos child) child
      else if child + 1 = v.size then (v.swapIfInBounds pos child, child)
      else (v, pos)

def siftDownToBottom (v : Array α) (pos : Nat) : Array α :=
  let (v, pos) := siftDown le v.size v pos
  siftUp le v.size v pos

def push (v : Array α) (x : α) : Array α := siftUp le (v.size + 1) (v.push x) v.size

def pop (v : Array α) : Option (α × Array α) :=
  match v.back? with
  | none => none
  | some last =>
      match v.pop[0]? with
      | none => some (last, v.pop)
      | some top => some (top, siftDownToBottom le (v.pop.setIfInBounds 0 last) 0)

/-! ## Comparing places -/

/-- No element at `i` is greater than one at `j`. -/
def LeAt (v : Array α) (i j : Nat) : Prop :=
  ∀ a b, v[i]? = some a → v[j]? = some b → le a b = true

variable {le}

theorem atMost_iff {v : Array α} {i j : Nat} : atMost le v i j = true ↔ LeAt le v i j := by
  unfold atMost LeAt
  cases v[i]? with
  | none => simp
  | some a =>
      cases v[j]? with
      | none => simp
      | some b => simp

theorem leAt_of_not_atMost (htotal : ∀ a b, le a b = true ∨ le b a = true) {v : Array α}
    {i j : Nat} (h : atMost le v i j ≠ true) : LeAt le v j i := by
  intro b a hb ha
  rw [Ne, atMost_iff] at h
  by_contra hnot
  refine h fun a' b' ha' hb' => ?_
  obtain rfl := Option.some.inj (ha.symm.trans ha')
  obtain rfl := Option.some.inj (hb.symm.trans hb')
  exact (htotal a b).resolve_right hnot

theorem LeAt.trans (htrans : ∀ a b c, le a b = true → le b c = true → le a c = true)
    {v : Array α} {i j k : Nat} (hij : LeAt le v i j) (hjk : LeAt le v j k) (hj : j < v.size) :
    LeAt le v i k := fun a c ha hc =>
  have hb : v[j]? = some v[j] := Array.getElem?_eq_getElem hj
  htrans a v[j] c (hij a _ ha hb) (hjk _ c hb hc)

theorem leAt_refl (htotal : ∀ a b, le a b = true ∨ le b a = true) (v : Array α) (i : Nat) :
    LeAt le v i i := by
  intro a b ha hb
  obtain rfl := Option.some.inj (ha.symm.trans hb)
  exact (htotal a a).elim id id

theorem getElem?_swap {v : Array α} {i j : Nat} (hi : i < v.size) (hj : j < v.size) (k : Nat) :
    (v.swapIfInBounds i j)[k]? = v[Equiv.swap i j k]? := by
  rw [Array.swapIfInBounds_def, dif_pos hi, dif_pos hj, Array.getElem?_swap]
  by_cases hkj : k = j
  · subst hkj
    rw [if_pos rfl, Equiv.swap_apply_right, Array.getElem?_eq_getElem hi]
  · rw [if_neg (Ne.symm hkj)]
    by_cases hki : k = i
    · subst hki
      rw [if_pos rfl, Equiv.swap_apply_left, Array.getElem?_eq_getElem hj]
    · rw [if_neg (Ne.symm hki), Equiv.swap_apply_of_ne_of_ne hki hkj]

theorem perm_swap (v : Array α) (i j : Nat) : (v.swapIfInBounds i j).Perm v := by
  rw [Array.swapIfInBounds_def]
  split
  · split
    · exact Array.swap_perm _ _
    · exact .refl _
  · exact .refl _

theorem leAt_swap {v : Array α} {i j : Nat} (hi : i < v.size) (hj : j < v.size) (a b : Nat) :
    LeAt le (v.swapIfInBounds i j) a b ↔ LeAt le v (Equiv.swap i j a) (Equiv.swap i j b) := by
  unfold LeAt
  rw [getElem?_swap hi hj, getElem?_swap hi hj]

theorem parent_lt {i : Nat} (hi : 0 < i) : parent i < i := by
  unfold parent
  omega

/-! ## The order -/

variable (le) in
/-- No element is greater than the one above it. -/
def IsHeap (v : Array α) : Prop := ∀ i, 0 < i → i < v.size → LeAt le v i (parent i)

variable (le) in
/-- Only the element at `pos` may be greater than the one above it. -/
structure UpHeap (v : Array α) (pos : Nat) : Prop where
  ordered : ∀ i, 0 < i → i < v.size → i ≠ pos → LeAt le v i (parent i)
  grand : 0 < pos → ∀ i, 0 < i → i < v.size → parent i = pos → LeAt le v i (parent pos)

variable (le) in
/-- Only the element at `pos` may be smaller than the ones below it. -/
structure DownHeap (v : Array α) (pos : Nat) : Prop where
  ordered : ∀ i, 0 < i → i < v.size → i ≠ pos → parent i ≠ pos → LeAt le v i (parent i)
  grand : 0 < pos → ∀ i, 0 < i → i < v.size → parent i = pos → LeAt le v i (parent pos)

/-- At the bottom there is nothing to be smaller than. -/
theorem DownHeap.upHeap {v : Array α} {pos : Nat} (h : DownHeap le v pos)
    (hbottom : v.size ≤ 2 * pos + 1) : UpHeap le v pos := by
  have hleaf : ∀ i, 0 < i → i < v.size → parent i ≠ pos := by
    intro i hi hsize hparent
    unfold parent at hparent
    omega
  exact ⟨fun i hi hsize hne => h.ordered i hi hsize hne (hleaf i hi hsize), h.grand⟩

/-- One step down, to a child that is not smaller than the other one. -/
theorem DownHeap.down {v : Array α} {pos child : Nat} (h : DownHeap le v pos)
    (hpos : pos < v.size) (hchild : child < v.size) (hunder : 0 < child ∧ parent child = pos)
    (hother : ∀ i, 0 < i → i < v.size → parent i = pos → LeAt le v i child) :
    DownHeap le (v.swapIfInBounds pos child) child := by
  obtain ⟨hc0, hparent⟩ := hunder
  have hlt : pos < child := hparent ▸ parent_lt hc0
  refine ⟨fun i hi hsize hne hnot => ?_, fun _ i hi hsize hgrand => ?_⟩
  · rw [Array.size_swapIfInBounds] at hsize
    rw [leAt_swap hpos hchild]
    by_cases hipos : i = pos
    · subst hipos
      have hself : parent i ≠ i := Nat.ne_of_lt (parent_lt hi)
      rw [Equiv.swap_apply_left, Equiv.swap_apply_of_ne_of_ne hself hnot]
      exact h.grand hi child hc0 hchild hparent
    · rw [Equiv.swap_apply_of_ne_of_ne hipos hne]
      by_cases hsibling : parent i = pos
      · rw [hsibling, Equiv.swap_apply_left]
        exact hother i hi hsize hsibling
      · rw [Equiv.swap_apply_of_ne_of_ne hsibling hnot]
        exact h.ordered i hi hsize hipos hsibling
  · rw [Array.size_swapIfInBounds] at hsize
    have hbelow : child < i := hgrand ▸ parent_lt hi
    rw [leAt_swap hpos hchild, hparent, Equiv.swap_apply_left,
      Equiv.swap_apply_of_ne_of_ne (by omega) (by omega)]
    have hold := h.ordered i hi hsize (by omega) (by omega)
    rw [hgrand] at hold
    exact hold

section Sift

variable (htrans : ∀ a b c, le a b = true → le b c = true → le a c = true)
  (htotal : ∀ a b, le a b = true ∨ le b a = true)

include htrans

/-- One step up. -/
theorem UpHeap.up {v : Array α} {pos : Nat} (h : UpHeap le v pos) (hpos : pos < v.size)
    (h0 : 0 < pos) (hgreater : LeAt le v (parent pos) pos) :
    UpHeap le (v.swapIfInBounds pos (parent pos)) (parent pos) := by
  have hparent := parent_lt h0
  have hp : parent pos < v.size := hparent.trans hpos
  refine ⟨fun i hi hsize hne => ?_, fun hp0 i hi hsize hchild => ?_⟩
  · rw [Array.size_swapIfInBounds] at hsize
    rw [leAt_swap hpos hp]
    by_cases hipos : i = pos
    · subst hipos
      rw [Equiv.swap_apply_left, Equiv.swap_apply_right]
      exact hgreater
    · rw [Equiv.swap_apply_of_ne_of_ne hipos hne]
      by_cases hunder : parent i = pos
      · rw [hunder, Equiv.swap_apply_left]
        exact h.grand h0 i hi hsize hunder
      · have hold := h.ordered i hi hsize hipos
        by_cases hsibling : parent i = parent pos
        · rw [hsibling, Equiv.swap_apply_right]
          rw [hsibling] at hold
          exact hold.trans htrans hgreater hp
        · rw [Equiv.swap_apply_of_ne_of_ne hunder hsibling]
          exact hold
  · rw [Array.size_swapIfInBounds] at hsize
    have hgrand := parent_lt hp0
    have habove := h.ordered (parent pos) hp0 hp (Nat.ne_of_lt hparent)
    rw [leAt_swap hpos hp, Equiv.swap_apply_of_ne_of_ne (x := parent (parent pos))
      (Nat.ne_of_lt (hgrand.trans hparent)) (Nat.ne_of_lt hgrand)]
    by_cases hipos : i = pos
    · rw [hipos, Equiv.swap_apply_left]
      exact habove
    · have hip : i ≠ parent pos := by
        rintro rfl
        exact absurd hchild (Nat.ne_of_lt hgrand)
      rw [Equiv.swap_apply_of_ne_of_ne hipos hip]
      have hold := h.ordered i hi hsize hipos
      rw [hchild] at hold
      exact hold.trans htrans habove hp

include htotal

theorem isHeap_siftUp {rounds : Nat} {v : Array α} {pos : Nat} (hpos : pos < v.size)
    (hrounds : pos < rounds) (h : UpHeap le v pos) : IsHeap le (siftUp le rounds v pos) := by
  induction rounds generalizing v pos with
  | zero => exact absurd hrounds (Nat.not_lt_zero pos)
  | succ rounds ih =>
      rw [siftUp]
      split
      · next h0 =>
          intro i hi hsize
          exact h.ordered i hi hsize (by omega)
      · next h0 =>
          have h0 := Nat.pos_of_ne_zero h0
          split
          · next hle =>
              intro i hi hsize
              by_cases hipos : i = pos
              · rw [hipos]
                exact atMost_iff.mp hle
              · exact h.ordered i hi hsize hipos
          · next hle =>
              have hparent := parent_lt h0
              refine ih ?_ ?_ (h.up htrans hpos h0 (leAt_of_not_atMost htotal hle))
              · rw [Array.size_swapIfInBounds]
                exact hparent.trans hpos
              · omega

omit htrans in
/-- The way down ends where only the way up is left. -/
theorem siftDown_spec {rounds : Nat} {v : Array α} {pos : Nat} (hpos : pos < v.size)
    (hrounds : v.size ≤ pos + rounds) (h : DownHeap le v pos) :
    (siftDown le rounds v pos).1.size = v.size ∧ (siftDown le rounds v pos).2 < v.size ∧
      UpHeap le (siftDown le rounds v pos).1 (siftDown le rounds v pos).2 := by
  induction rounds generalizing v pos with
  | zero => omega
  | succ rounds ih =>
      rw [siftDown]
      dsimp only
      split
      · next htwo =>
          have hleft : parent (2 * pos + 1) = pos := by unfold parent; omega
          have hright : parent (2 * pos + 1 + 1) = pos := by unfold parent; omega
          have hkids : ∀ i, 0 < i → parent i = pos → i = 2 * pos + 1 ∨ i = 2 * pos + 1 + 1 := by
            intro i hi hparent
            unfold parent at hparent
            omega
          split
          · next hle =>
              have hdown := h.down hpos htwo ⟨Nat.succ_pos _, hright⟩ (by
                intro i hi hsize hparent
                rcases hkids i hi hparent with rfl | rfl
                · exact atMost_iff.mp hle
                · exact leAt_refl htotal v _)
              have hsize := @Array.size_swapIfInBounds _ v pos (2 * pos + 1 + 1)
              have hnext := ih (by rw [hsize]; exact htwo) (by rw [hsize]; omega) hdown
              rw [hsize] at hnext
              exact hnext
          · next hle =>
              have hone : 2 * pos + 1 < v.size := by omega
              have hdown := h.down hpos hone ⟨Nat.succ_pos _, hleft⟩ (by
                intro i hi hsize hparent
                rcases hkids i hi hparent with rfl | rfl
                · exact leAt_refl htotal v _
                · exact leAt_of_not_atMost htotal hle)
              have hsize := @Array.size_swapIfInBounds _ v pos (2 * pos + 1)
              have hnext := ih (by rw [hsize]; exact hone) (by rw [hsize]; omega) hdown
              rw [hsize] at hnext
              exact hnext
      · next htwo =>
          split
          · next hone =>
              have hleft : parent (2 * pos + 1) = pos := by unfold parent; omega
              have hdown := h.down hpos (by omega : 2 * pos + 1 < v.size)
                ⟨Nat.succ_pos _, hleft⟩ (by
                  intro i hi hsize hparent
                  unfold parent at hparent
                  obtain rfl : i = 2 * pos + 1 := by omega
                  exact leAt_refl htotal v _)
              have hsize := @Array.size_swapIfInBounds _ v pos (2 * pos + 1)
              exact ⟨hsize, by omega, hdown.upHeap (by rw [hsize]; omega)⟩
          · next hnone => exact ⟨rfl, hpos, h.upHeap (by omega)⟩

theorem isHeap_siftDownToBottom {v : Array α} {pos : Nat} (hpos : pos < v.size)
    (h : DownHeap le v pos) : IsHeap le (siftDownToBottom le v pos) := by
  obtain ⟨hsize, hlt, hup⟩ := siftDown_spec htotal hpos (Nat.le_add_left v.size pos) h
  have hlt := hlt.trans_eq hsize.symm
  exact isHeap_siftUp htrans htotal hlt hlt hup

end Sift

/-! ## The elements -/

theorem perm_siftUp (rounds : Nat) (v : Array α) (pos : Nat) :
    (siftUp le rounds v pos).Perm v := by
  induction rounds generalizing v pos with
  | zero => exact .refl v
  | succ rounds ih =>
      rw [siftUp]
      split
      · exact .refl v
      · split
        · exact .refl v
        · exact (ih _ _).trans (perm_swap v _ _)

theorem perm_siftDown (rounds : Nat) (v : Array α) (pos : Nat) :
    (siftDown le rounds v pos).1.Perm v := by
  induction rounds generalizing v pos with
  | zero => exact .refl v
  | succ rounds ih =>
      rw [siftDown]
      dsimp only
      split
      · exact (ih _ _).trans (perm_swap v _ _)
      · split
        · exact perm_swap v _ _
        · exact .refl v

theorem perm_siftDownToBottom (v : Array α) (pos : Nat) : (siftDownToBottom le v pos).Perm v :=
  (perm_siftUp _ _ _).trans (perm_siftDown _ v pos)

theorem perm_push (v : Array α) (x : α) : (push le v x).toList.Perm (x :: v.toList) := by
  have hperm : (push le v x).toList.Perm (v.push x).toList :=
    Array.perm_iff_toList_perm.mp (perm_siftUp _ _ _)
  rw [Array.toList_push] at hperm
  exact hperm.trans (List.perm_append_singleton x v.toList)

/-- The last element for the first one. -/
theorem perm_replace {ys : Array α} {top : α} (htop : ys[0]? = some top) (last : α) :
    (ys.push last).toList.Perm (top :: (ys.setIfInBounds 0 last).toList) := by
  obtain ⟨zs⟩ := ys
  cases zs with
  | nil => cases htop
  | cons y zs =>
      obtain rfl : y = top := Option.some.inj htop
      rw [Array.toList_push, Array.toList_setIfInBounds, List.set_cons_zero]
      exact (List.perm_append_singleton last zs).cons y

theorem pop_eq_none_iff {v : Array α} : pop le v = none ↔ v.toList = [] := by
  unfold pop
  cases hlast : v.back? with
  | none =>
      rw [Array.back?_eq_none_iff.mp hlast]
      exact iff_of_true rfl rfl
  | some last =>
      refine iff_of_false ?_ ?_
      · cases v.pop[0]? with
        | none => exact fun h => nomatch h
        | some top => exact fun h => nomatch h
      · obtain ⟨ys, rfl⟩ := Array.back?_eq_some_iff.mp hlast
        rw [Array.toList_push]
        exact List.append_ne_nil_of_right_ne_nil _ (List.cons_ne_nil _ _)

theorem isHeap_empty : IsHeap le (#[] : Array α) := fun _ _ h => absurd h (Nat.not_lt_zero _)

section Order

variable (htrans : ∀ a b c, le a b = true → le b c = true → le a c = true)
  (htotal : ∀ a b, le a b = true ∨ le b a = true)

include htrans htotal

theorem isHeap_push {v : Array α} (h : IsHeap le v) (x : α) : IsHeap le (push le v x) := by
  have hsize : (v.push x).size = v.size + 1 := Array.size_push x
  refine isHeap_siftUp htrans htotal (by omega) (Nat.lt_succ_self _) ⟨?_, ?_⟩
  · intro i hi hlt hne
    have hold : i < v.size := by omega
    have hparent := parent_lt hi
    have hget : ∀ k < v.size, (v.push x)[k]? = v[k]? := by
      intro k hk
      rw [Array.getElem?_push, if_neg (Nat.ne_of_lt hk)]
    intro a b ha hb
    rw [hget i hold] at ha
    rw [hget (parent i) (hparent.trans hold)] at hb
    exact h i hi hold a b ha hb
  · intro _ i hi hlt hparent
    have hbelow := parent_lt hi
    omega

/-- No element is greater than the one at the root. -/
theorem IsHeap.leAt_root {v : Array α} (h : IsHeap le v) {i : Nat} (hi : i < v.size) :
    LeAt le v i 0 := by
  induction i using Nat.strong_induction_on with
  | _ i ih =>
      rcases Nat.eq_zero_or_pos i with rfl | h0
      · exact leAt_refl htotal v 0
      · have hlt := parent_lt h0
        exact (h i h0 hi).trans htrans (ih (parent i) hlt (hlt.trans hi)) (hlt.trans hi)

omit htrans htotal in
/-- Without its last element, and with that one at the root, only the root may have to go down. -/
theorem IsHeap.downHeap {ys : Array α} {last : α} (h : IsHeap le (ys.push last)) :
    DownHeap le (ys.setIfInBounds 0 last) 0 := by
  refine ⟨fun i hi hsize hne hparent => ?_, fun h0 => absurd h0 (Nat.lt_irrefl 0)⟩
  rw [Array.size_setIfInBounds] at hsize
  have hget : ∀ k, k ≠ 0 → k < ys.size → (ys.setIfInBounds 0 last)[k]? = (ys.push last)[k]? := by
    intro k hk hlt
    rw [Array.getElem?_setIfInBounds_ne (Ne.symm hk), Array.getElem?_push,
      if_neg (Nat.ne_of_lt hlt)]
  have hold := h i hi (by rw [Array.size_push]; omega)
  intro a b ha hb
  rw [hget i hne hsize] at ha
  rw [hget (parent i) hparent ((parent_lt hi).trans hsize)] at hb
  exact hold a b ha hb

/-- `pop` takes a greatest element, and leaves the others. -/
theorem pop_spec {v v' : Array α} {x : α} (h : IsHeap le v) (hpop : pop le v = some (x, v')) :
    IsHeap le v' ∧ v.toList.Perm (x :: v'.toList) ∧ ∀ y ∈ v.toList, le y x = true := by
  unfold pop at hpop
  cases hlast : v.back? with
  | none =>
      rw [hlast] at hpop
      cases hpop
  | some last =>
      obtain ⟨ys, rfl⟩ := Array.back?_eq_some_iff.mp hlast
      rw [hlast] at hpop
      dsimp only at hpop
      rw [Array.pop_push] at hpop
      cases htop : ys[0]? with
      | none =>
          rw [htop] at hpop
          cases hpop
          obtain rfl : v' = #[] := by
            rw [Array.getElem?_eq_none_iff] at htop
            exact Array.eq_empty_of_size_eq_zero (Nat.le_zero.mp htop)
          refine ⟨isHeap_empty, .refl _, fun y hy => ?_⟩
          obtain rfl : y = x := by simpa using hy
          exact (htotal y y).elim id id
      | some top =>
          rw [htop] at hpop
          cases hpop
          obtain ⟨h0, htop'⟩ := Array.getElem?_eq_some_iff.mp htop
          refine ⟨?_, ?_, ?_⟩
          · refine isHeap_siftDownToBottom htrans htotal ?_ h.downHeap
            rw [Array.size_setIfInBounds]
            exact h0
          · exact (perm_replace htop last).trans
              ((Array.perm_iff_toList_perm.mp (perm_siftDownToBottom _ 0)).symm.cons x)
          · intro y hy
            obtain ⟨i, hi, rfl⟩ := List.mem_iff_getElem.mp hy
            have hroot := h.leAt_root htrans htotal (i := i) hi
            refine hroot _ _ (by rw [Array.getElem?_eq_getElem hi]; rfl) ?_
            rw [Array.getElem?_push, if_neg (by omega)]
            exact htop

end Order

end BinaryHeap

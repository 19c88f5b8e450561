/-
# `Cognos.Lib.Tiling` — ranges that fill a range

Blocks that follow one another without gap from one end of a range to the other (`Chain`), and
blocks that do so in some order (`Fills`).

    Fills.apart     no two of them overlap
    Fills.inside    none lies outside
    Fills.size      their sizes add up
    Fills.split     a block may be cut in two
-/
import Mathlib

/-- A block: where it starts, and its size. -/
structure Block where
  offset : Nat
  size : Nat
  deriving DecidableEq, Repr

namespace Block

/-- The blocks have nothing in common. -/
def Apart (b c : Block) : Prop := b.offset + b.size ≤ c.offset ∨ c.offset + c.size ≤ b.offset

instance (b c : Block) : Decidable (b.Apart c) := inferInstanceAs (Decidable (_ ∨ _))

theorem Apart.symm {b c : Block} (h : b.Apart c) : c.Apart b := Or.symm h

/-- Blocks one behind the other, none empty, from `lo` to `hi`. -/
def Chain (hi : Nat) : Nat → List Block → Prop
  | lo, [] => lo = hi
  | lo, b :: bs => b.offset = lo ∧ 0 < b.size ∧ Chain hi (lo + b.size) bs

section Chain

variable {lo hi : Nat} {bs : List Block}

theorem Chain.bounds (h : Chain hi lo bs) : lo ≤ hi ∧
    ∀ b ∈ bs, lo ≤ b.offset ∧ 0 < b.size ∧ b.offset + b.size ≤ hi := by
  induction bs generalizing lo with
  | nil => exact ⟨h.le, fun b hb => absurd hb List.not_mem_nil⟩
  | cons c bs ih =>
      obtain ⟨hoffset, hpos, hrest⟩ := h
      obtain ⟨hle, hall⟩ := ih hrest
      refine ⟨by omega, List.forall_mem_cons.mpr ⟨⟨by omega, hpos, by omega⟩, fun b hb => ?_⟩⟩
      have hb := hall b hb
      omega

theorem Chain.apart (h : Chain hi lo bs) : bs.Pairwise Apart := by
  induction bs generalizing lo with
  | nil => exact .nil
  | cons c bs ih =>
      obtain ⟨hoffset, hpos, hrest⟩ := h
      refine List.pairwise_cons.mpr ⟨fun b hb => Or.inl ?_, ih hrest⟩
      rw [hoffset]
      exact (hrest.bounds.2 b hb).1

theorem Chain.size (h : Chain hi lo bs) : lo + (bs.map (·.size)).sum = hi := by
  induction bs generalizing lo with
  | nil => exact h
  | cons c bs ih =>
      obtain ⟨-, -, hrest⟩ := h
      have hsum := ih hrest
      rw [List.map_cons, List.sum_cons]
      omega

/-- A block of a chain may be cut in two. -/
theorem Chain.split {b : Block} {before after : List Block} {k : Nat}
    (h : Chain hi lo (before ++ b :: after)) (hpos : 0 < k) (hlt : k < b.size) :
    Chain hi lo (before ++ ⟨b.offset, k⟩ :: ⟨b.offset + k, b.size - k⟩ :: after) := by
  induction before generalizing lo with
  | nil =>
      obtain ⟨hoffset, -, hrest⟩ := h
      have hsum : lo + k + (b.size - k) = lo + b.size := by omega
      refine ⟨hoffset, hpos, by rw [← hoffset], Nat.sub_pos_of_lt hlt, ?_⟩
      show Chain hi (lo + k + (b.size - k)) after
      rw [hsum]
      exact hrest
  | cons c before ih =>
      obtain ⟨hoffset, hcpos, hrest⟩ := h
      exact ⟨hoffset, hcpos, ih hrest⟩

end Chain

/-- The blocks fill the range up to `hi`, in some order. -/
def Fills (hi : Nat) (bs : List Block) : Prop := ∃ l : List Block, bs.Perm l ∧ Chain hi 0 l

section Fills

variable {hi : Nat} {bs cs : List Block}

theorem Fills.perm (h : Fills hi bs) (hp : bs.Perm cs) : Fills hi cs := by
  obtain ⟨l, hl, hchain⟩ := h
  exact ⟨l, hp.symm.trans hl, hchain⟩

theorem fills_one (hpos : 0 < hi) : Fills hi [⟨0, hi⟩] :=
  ⟨_, .refl _, rfl, hpos, Nat.zero_add hi⟩

theorem Fills.apart (h : Fills hi bs) : bs.Pairwise Apart := by
  obtain ⟨l, hl, hchain⟩ := h
  exact hl.symm.pairwise hchain.apart fun h => Apart.symm h

theorem Fills.inside (h : Fills hi bs) {b : Block} (hb : b ∈ bs) :
    0 < b.size ∧ b.offset + b.size ≤ hi := by
  obtain ⟨l, hl, hchain⟩ := h
  exact (hchain.bounds.2 b (hl.mem_iff.mp hb)).2

theorem Fills.size (h : Fills hi bs) : (bs.map (·.size)).sum = hi := by
  obtain ⟨l, hl, hchain⟩ := h
  rw [(hl.map _).sum_eq, ← hchain.size, Nat.zero_add]

/-- A block may be cut in two. -/
theorem Fills.split {b : Block} {k : Nat} (h : Fills hi (b :: bs)) (hpos : 0 < k)
    (hlt : k < b.size) : Fills hi (⟨b.offset, k⟩ :: ⟨b.offset + k, b.size - k⟩ :: bs) := by
  obtain ⟨l, hl, hchain⟩ := h
  obtain ⟨before, after, rfl⟩ := List.append_of_mem (hl.mem_iff.mp List.mem_cons_self)
  have hrest : bs.Perm (before ++ after) := (hl.trans List.perm_middle).cons_inv
  refine ⟨_, ?_, hchain.split hpos hlt⟩
  refine .trans ?_ List.perm_middle.symm
  refine .cons _ (.trans ?_ List.perm_middle.symm)
  exact .cons _ hrest

end Fills

end Block

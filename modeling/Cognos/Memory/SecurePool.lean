/-
# `Cognos.Memory.SecurePool` — the arena for locked memory

`secure_pool.rs`: blocks are carved from one arena, first fit, and given back.  A handle knows
the order of its block, `16 << order` bytes at least as large as what was asked for; what is
carved is what was asked for.

    order_spec       `orderOf` is the least order that is large enough
    Accounted        every byte of the arena is live, once, or free, once
    acquire_sound    an acquisition keeps the pool sound exactly when it asks for the size of an
                     order
    sound_iff        and so does a run: exactly when each of its acquisitions does

The base pointer is not dereferenced and left out; sizes are far below the bound of `usize` as
long as the pool is sound.
-/
import Mathlib
import Cognos.Lib.Run
import Cognos.Lib.Tiling

namespace SecurePool

/-! ## Sizes and orders -/

/-- Minimum block size (bytes). -/
def minBlock : Nat := 16

/-- `while s < n { s <<= 1; k += 1; }`; there is a round for each byte. -/
def orderLoop (n : Nat) : Nat → Nat → Nat → Nat
  | 0, _, k => k
  | rounds + 1, s, k => if s < n then orderLoop n rounds (s <<< 1) (k + 1) else k

/-- The smallest `k` such that `minBlock << k >= n`. -/
def orderOf (n : Nat) : Nat := if n ≤ minBlock then 0 else orderLoop n n minBlock 0

/-- Size of a block of order `k`. -/
def sizeOfOrder (k : Nat) : Nat := minBlock <<< k

theorem sizeOfOrder_eq (k : Nat) : sizeOfOrder k = 16 * 2 ^ k := Nat.shiftLeft_eq _ _

theorem sizeOfOrder_succ (k : Nat) : sizeOfOrder (k + 1) = sizeOfOrder k <<< 1 := by
  rw [sizeOfOrder_eq, sizeOfOrder_eq, Nat.shiftLeft_eq, Nat.pow_succ, Nat.mul_assoc, pow_one]

theorem sizeOfOrder_pos (k : Nat) : 0 < sizeOfOrder k := by
  rw [sizeOfOrder_eq]
  exact Nat.mul_pos (by decide) (Nat.two_pow_pos k)

theorem sizeOfOrder_mono {j k : Nat} (h : j ≤ k) : sizeOfOrder j ≤ sizeOfOrder k := by
  rw [sizeOfOrder_eq, sizeOfOrder_eq]
  exact Nat.mul_le_mul_left 16 (Nat.pow_le_pow_right (by decide) h)

theorem orderLoop_spec (n rounds k : Nat) (hrounds : n ≤ sizeOfOrder k + rounds) :
    n ≤ sizeOfOrder (orderLoop n rounds (sizeOfOrder k) k) ∧
      ∀ j, k ≤ j → n ≤ sizeOfOrder j → orderLoop n rounds (sizeOfOrder k) k ≤ j := by
  induction rounds generalizing k with
  | zero => exact ⟨hrounds, fun j hkj _ => hkj⟩
  | succ rounds ih =>
      rw [orderLoop]
      split_ifs with hlt
      · rw [← sizeOfOrder_succ]
        have hgrow : sizeOfOrder k + 1 ≤ sizeOfOrder (k + 1) := by
          have hpos := sizeOfOrder_pos k
          rw [sizeOfOrder_succ, Nat.shiftLeft_eq]
          omega
        obtain ⟨hle, hleast⟩ := ih (k + 1) (by omega)
        refine ⟨hle, fun j hkj hj => hleast j ?_ hj⟩
        rcases hkj.eq_or_lt with rfl | hkj
        · omega
        · exact hkj
      · exact ⟨not_lt.mp hlt, fun j hkj _ => hkj⟩

/-- The least order that is large enough. -/
theorem order_spec (n : Nat) :
    n ≤ sizeOfOrder (orderOf n) ∧ ∀ j, n ≤ sizeOfOrder j → orderOf n ≤ j := by
  have h := orderLoop_spec n n 0 (Nat.le_add_left _ _)
  rw [orderOf]
  split_ifs with hle
  · exact ⟨hle, fun j _ => Nat.zero_le j⟩
  · exact ⟨h.1, fun j hj => h.2 j (Nat.zero_le j) hj⟩

/-- The sizes that are not rounded up. -/
theorem sizeOfOrder_orderOf_iff {n : Nat} :
    sizeOfOrder (orderOf n) = n ↔ ∃ k, n = 16 * 2 ^ k := by
  constructor
  · intro h
    exact ⟨orderOf n, by rw [← sizeOfOrder_eq, h]⟩
  · rintro ⟨k, hk⟩
    rw [← sizeOfOrder_eq] at hk
    obtain ⟨hle, hleast⟩ := order_spec n
    exact le_antisymm ((sizeOfOrder_mono (hleast k hk.le)).trans hk.ge) hle

/-! ## The pool -/

inductive PoolError
  | exhausted (requested largestFree : Nat)
  | invalidSize (size : Nat)

def PoolError.text : PoolError → String
  | .exhausted requested largestFree => "pool exhausted: requested " ++ toString requested ++
      ", largest free " ++ toString largestFree
  | .invalidSize size => "invalid size: " ++ toString size

/-- Handle returned by `acquire`: where the block starts, and its size class. -/
structure BlockHandle where
  offset : Nat
  order : Nat
  deriving DecidableEq

abbrev FreeBlock := Block

/-- Snapshot of pool utilisation. -/
structure PoolStats where
  total : Nat
  allocated : Nat
  free : Nat
  fragmentation : Float32

end SecurePool

structure SecurePool where
  total : Nat
  freeList : List SecurePool.FreeBlock
  allocated : AList fun _ : Nat => SecurePool.BlockHandle

namespace SecurePool

open Block (Apart Fills)

def isPowerOfTwo (n : Nat) : Bool := n = 2 ^ n.log2

def new (totalBytes : Nat) : Except PoolError SecurePool :=
  if totalBytes = 0 || !isPowerOfTwo totalBytes then .error (.invalidSize totalBytes)
  else .ok ⟨totalBytes, [⟨0, totalBytes⟩], ∅⟩

/-- `Vec::swap_remove`: the element, and the rest with the last one in its place. -/
def swapRemove {α : Type} (l : List α) (i : Nat) : Option (α × List α) := do
  let x ← l[i]?
  let last ← l.getLast?
  return (x, (l.set i last).dropLast)

/-- `free_list.sort_by_key(|b| b.offset)`, which is stable. -/
def sortByOffset (bs : List FreeBlock) : List FreeBlock :=
  bs.insertionSort fun a b => a.offset ≤ b.offset

def largest (bs : List FreeBlock) : Nat := (bs.map (·.size)).foldl max 0

/-- First fit; the remainder of the block goes back to the free list. -/
def acquire (p : SecurePool) (size : Nat) : Except PoolError BlockHandle × SecurePool :=
  if size = 0 then (.error (.invalidSize 0), p)
  else
    match (p.freeList.findIdx? fun b => size ≤ b.size).bind (swapRemove p.freeList) with
    | none => (.error (.exhausted size (largest p.freeList)), p)
    | some (block, rest) =>
        let handle : BlockHandle := ⟨block.offset, orderOf size⟩
        (.ok handle,
          { p with
            freeList :=
              if size < block.size then
                sortByOffset (rest ++ [⟨block.offset + size, block.size - size⟩])
              else rest
            allocated := p.allocated.insert handle.offset handle })

/-- An unknown handle is passed over. -/
def release (p : SecurePool) (handle : BlockHandle) : SecurePool :=
  if (p.allocated.lookup handle.offset).isNone then p
  else
    { p with
      freeList := sortByOffset (p.freeList ++ [⟨handle.offset, sizeOfOrder handle.order⟩])
      allocated := p.allocated.erase handle.offset }

/-- Snapshot of pool utilisation: what handles and free blocks say they hold. -/
def stats (p : SecurePool) : PoolStats :=
  let free := (p.freeList.map (·.size)).sum
  { total := p.total
    allocated := (p.allocated.entries.map fun e => sizeOfOrder e.2.order).sum
    free := free
    fragmentation :=
      if free = 0 then 0 else 1 - (largest p.freeList).toFloat32 / free.toFloat32 }

/-! ## What the operations do -/

theorem swapRemove_perm {α : Type} {l rest : List α} {i : Nat} {x : α}
    (h : swapRemove l i = some (x, rest)) : l[i]? = some x ∧ l.Perm (x :: rest) := by
  unfold swapRemove at h
  cases hx : l[i]? with
  | none =>
      rw [hx] at h
      cases h
  | some y =>
      rw [hx] at h
      rcases List.eq_nil_or_concat l with rfl | ⟨l', last, rfl⟩
      · cases hx
      · rw [List.concat_eq_append] at h hx ⊢
        rw [List.getLast?_concat] at h
        obtain ⟨rfl, rfl⟩ := Prod.mk.inj (Option.some.inj h)
        refine ⟨rfl, ?_⟩
        rcases lt_or_ge i l'.length with hlt | hge
        · rw [List.getElem?_append_left hlt] at hx
          obtain ⟨_, rfl⟩ := List.getElem?_eq_some_iff.mp hx
          obtain ⟨before, after, hl', -, hset⟩ : ∃ before after, l' = before ++ l'[i] :: after ∧
              before.length = i ∧ l'.set i last = before ++ last :: after :=
            List.exists_of_set hlt
          rw [List.set_append_left _ _ hlt, List.dropLast_concat, hset]
          nth_rewrite 1 [hl']
          refine (List.perm_append_singleton _ _).trans ?_
          refine (List.Perm.cons _ List.perm_middle).trans (.trans (.swap _ _ _) ?_)
          exact .cons _ List.perm_middle.symm
        · -- the element is the last one itself
          rw [List.getElem?_append_right hge] at hx
          obtain ⟨hlt, rfl⟩ := List.getElem?_eq_some_iff.mp hx
          have hi : i - l'.length = 0 := Nat.lt_one_iff.mp hlt
          simp only [List.set_append_right _ _ hge, hi, List.set_cons_zero, List.dropLast_concat,
            List.getElem_singleton]
          exact List.perm_append_singleton _ _

theorem firstFit_some {bs rest : List FreeBlock} {block : FreeBlock} {size : Nat}
    (h : (bs.findIdx? fun b => size ≤ b.size).bind (swapRemove bs) = some (block, rest)) :
    bs.Perm (block :: rest) ∧ size ≤ block.size := by
  obtain ⟨i, hi, hswap⟩ := Option.bind_eq_some_iff.mp h
  obtain ⟨hblock, hperm⟩ := swapRemove_perm hswap
  obtain ⟨hlt, hfits, -⟩ := List.findIdx?_eq_some_iff_getElem.mp hi
  rw [List.getElem?_eq_getElem hlt, Option.some.injEq] at hblock
  rw [hblock] at hfits
  exact ⟨hperm, of_decide_eq_true hfits⟩

theorem firstFit_none {bs : List FreeBlock} {size : Nat}
    (h : (bs.findIdx? fun b => size ≤ b.size).bind (swapRemove bs) = none) :
    ∀ b ∈ bs, b.size < size := by
  cases hi : bs.findIdx? fun b => size ≤ b.size with
  | none =>
      intro b hb
      have hnot := List.findIdx?_eq_none_iff.mp hi b hb
      exact not_le.mp (of_decide_eq_false hnot)
  | some i =>
      obtain ⟨hlt, -, -⟩ := List.findIdx?_eq_some_iff_getElem.mp hi
      rw [hi, Option.bind_some, swapRemove, List.getElem?_eq_getElem hlt] at h
      have hne : bs ≠ [] := List.ne_nil_of_length_pos (Nat.zero_lt_of_lt hlt)
      rw [List.getLast?_eq_some_getLast hne] at h
      cases h

theorem sortByOffset_perm (bs : List FreeBlock) : (sortByOffset bs).Perm bs :=
  List.perm_insertionSort _ _

/-- What an acquisition leaves of the block it takes from. -/
def remainder (block : FreeBlock) (size : Nat) : List FreeBlock :=
  if size < block.size then [⟨block.offset + size, block.size - size⟩] else []

section Operations

variable {p p' : SecurePool} {size : Nat} {handle : BlockHandle}

/-- An acquisition takes the front of a free block that is large enough. -/
theorem acquire_ok (h : p.acquire size = (.ok handle, p')) : 0 < size ∧ ∃ block rest,
    p.freeList.Perm (block :: rest) ∧ size ≤ block.size ∧
      handle = ⟨block.offset, orderOf size⟩ ∧ p'.total = p.total ∧
        p'.freeList.Perm (remainder block size ++ rest) ∧
          p'.allocated = p.allocated.insert handle.offset handle := by
  unfold acquire at h
  split_ifs at h with hzero
  · cases h
  · split at h
    · cases h
    · next block rest hfit =>
        cases h
        obtain ⟨hperm, hfits⟩ := firstFit_some hfit
        refine ⟨Nat.pos_of_ne_zero hzero, block, rest, hperm, hfits, rfl, rfl, ?_, rfl⟩
        rw [remainder]
        split_ifs
        · exact (sortByOffset_perm _).trans (List.perm_append_singleton _ _)
        · exact .refl _

/-- One that fails changes nothing, and finds no block that is large enough. -/
theorem acquire_error {e : PoolError} (h : p.acquire size = (.error e, p')) :
    p' = p ∧ (0 < size → ∀ b ∈ p.freeList, b.size < size) := by
  unfold acquire at h
  split_ifs at h with hzero
  · cases h
    exact ⟨rfl, fun hpos => absurd hzero hpos.ne'⟩
  · split at h
    · next hfit =>
        cases h
        exact ⟨rfl, fun _ => firstFit_none hfit⟩
    · cases h

/-- A known handle's block goes back to the free list, as large as the handle says. -/
theorem release_known (h : (p.allocated.lookup handle.offset).isSome) :
    (p.release handle).total = p.total ∧
      (p.release handle).freeList.Perm (⟨handle.offset, sizeOfOrder handle.order⟩ :: p.freeList) ∧
        (p.release handle).allocated = p.allocated.erase handle.offset := by
  rw [release, if_neg (by simpa using Option.isSome_iff_ne_none.mp h)]
  exact ⟨rfl, (sortByOffset_perm _).trans (List.perm_append_singleton _ _), rfl⟩

end Operations

/-! ## A pool in use -/

/-- The pool, and the handles acquired and not released, with the size that was asked for. -/
structure Client where
  pool : SecurePool
  held : List (BlockHandle × Nat)

inductive PoolCall
  | acquire (size : Nat)
  | release (handle : BlockHandle)

/-- The block a handle stands for. -/
def BlockHandle.block (h : BlockHandle) : Block := ⟨h.offset, sizeOfOrder h.order⟩

namespace Client

def step (s : Client) : PoolCall → Client
  | .acquire size =>
      match s.pool.acquire size with
      | (.ok handle, pool) => ⟨pool, (handle, size) :: s.held⟩
      | (.error _, pool) => ⟨pool, s.held⟩
  | .release handle => ⟨s.pool.release handle, s.held.eraseP (·.1 = handle)⟩

/-- Only what is held is released. -/
def Disciplined (s : Client) (c : PoolCall) : Prop :=
  ∀ handle, c = .release handle → ∃ p ∈ s.held, p.1 = handle

/-- The blocks that are live. -/
def live (s : Client) : List Block := s.held.map (·.1.block)

/-- Live blocks do not overlap, lie in the arena and off the free list, and are as large as was
asked for; and what is allocated and what is free add up. -/
structure Sound (s : Client) : Prop where
  disjoint : s.live.Pairwise Apart
  inside : ∀ b ∈ s.live, b.offset + b.size ≤ s.pool.total
  free : ∀ b ∈ s.live, ∀ f ∈ s.pool.freeList, b.Apart f
  enough : ∀ p ∈ s.held, p.2 ≤ p.1.block.size
  adds : s.pool.stats.allocated + s.pool.stats.free = s.pool.stats.total

/-- Every byte of the arena is in one live block or in one free one, and what is live is in the
table. -/
structure Accounted (s : Client) : Prop where
  fills : Fills s.pool.total (s.live ++ s.pool.freeList)
  enough : ∀ p ∈ s.held, p.2 ≤ p.1.block.size
  table : (s.pool.allocated.entries.map (·.2)).Perm (s.held.map (·.1))
  keyed : ∀ e ∈ s.pool.allocated.entries, e.1 = e.2.offset

/-- An acquisition that finds a block asks for the size of an order. -/
def AsksOrder (s : Client) (c : PoolCall) : Prop :=
  ∀ size, c = .acquire size → 0 < size → (∃ b ∈ s.pool.freeList, size ≤ b.size) →
    sizeOfOrder (orderOf size) = size

variable {s : Client}

theorem allocated_eq (htable : (s.pool.allocated.entries.map (·.2)).Perm (s.held.map (·.1))) :
    s.pool.stats.allocated = (s.live.map (·.size)).sum := by
  have hsizes := (htable.map fun h : BlockHandle => sizeOfOrder h.order).sum_eq
  rw [List.map_map, List.map_map] at hsizes
  rw [live, List.map_map]
  exact hsizes

theorem Accounted.sound (h : Accounted s) : Sound s := by
  obtain ⟨hlive, -, happart⟩ := List.pairwise_append.mp h.fills.apart
  refine ⟨hlive, fun b hb => ?_, happart, h.enough, ?_⟩
  · exact (h.fills.inside (List.mem_append_left _ hb)).2
  · have hsize := h.fills.size
    rw [List.map_append, List.sum_append] at hsize
    rw [allocated_eq h.table]
    exact hsize

theorem accounted_start {total : Nat} {pool : SecurePool} (h : new total = .ok pool) :
    Accounted ⟨pool, []⟩ := by
  unfold new at h
  split_ifs at h with hbad
  cases h
  have hpos : 0 < total := by
    rw [Bool.or_eq_true, not_or, decide_eq_true_eq] at hbad
    exact Nat.pos_of_ne_zero hbad.1
  exact ⟨Block.fills_one hpos, fun _ hp => absurd hp List.not_mem_nil, .refl _,
    fun _ he => absurd he List.not_mem_nil⟩

/-! ## One acquisition -/

section Acquire

variable {size : Nat} {handle : BlockHandle} {pool : SecurePool}

/-- No live block starts where a free one does. -/
theorem Accounted.fresh (h : Accounted s) {block : FreeBlock} (hblock : block ∈ s.pool.freeList) :
    block.offset ∉ s.pool.allocated := by
  intro hmem
  obtain ⟨e, he, hkey⟩ := List.mem_map.mp (AList.mem_keys.mp hmem)
  have hoffset : e.2.offset = block.offset := (h.keyed e he).symm.trans hkey
  have hlive : e.2.block ∈ s.live := by
    obtain ⟨p, hp, hpe⟩ := List.mem_map.mp (h.table.mem_iff.mp (List.mem_map_of_mem he))
    exact List.mem_map.mpr ⟨p, hp, by rw [hpe]⟩
  have hapart := h.sound.free _ hlive _ hblock
  have hpos := (h.fills.inside (List.mem_append_right _ hblock)).1
  have hpos' := sizeOfOrder_pos e.2.order
  simp only [Apart, BlockHandle.block] at hapart
  omega

/-- After an acquisition, table and enough space are as they should be. -/
theorem Accounted.acquire (h : Accounted s) (hok : s.pool.acquire size = (.ok handle, pool)) :
    (pool.allocated.entries.map (·.2)).Perm (handle :: s.held.map (·.1)) ∧
      (∀ e ∈ pool.allocated.entries, e.1 = e.2.offset) ∧ size ≤ handle.block.size := by
  obtain ⟨-, block, rest, hfree, -, rfl, -, -, htable⟩ := acquire_ok hok
  have hblock : block ∈ s.pool.freeList := hfree.mem_iff.mpr List.mem_cons_self
  rw [htable, AList.entries_insert_of_notMem (h.fresh hblock)]
  refine ⟨h.table.cons _, List.forall_mem_cons.mpr ⟨rfl, h.keyed⟩, (order_spec size).1⟩

/-- What is allocated and what is free, after an acquisition: the size asked for has turned into
the size of its order. -/
theorem Accounted.adds_acquire (h : Accounted s) (hok : s.pool.acquire size = (.ok handle, pool)) :
    pool.stats.allocated + pool.stats.free + size =
      pool.stats.total + sizeOfOrder (orderOf size) := by
  have htable := (h.acquire hok).1
  obtain ⟨hpos, block, rest, hfree, hfits, rfl, htotal, hrest, -⟩ := acquire_ok hok
  have hallocated : pool.stats.allocated =
      sizeOfOrder (orderOf size) + (s.live.map (·.size)).sum :=
    allocated_eq (s := ⟨pool, (⟨block.offset, orderOf size⟩, size) :: s.held⟩) htable
  have hfreed : pool.stats.free + size = (s.pool.freeList.map (·.size)).sum := by
    show (pool.freeList.map (·.size)).sum + size = _
    rw [(hrest.map _).sum_eq, (hfree.map _).sum_eq, remainder]
    split_ifs with hlt
    · simp only [List.singleton_append, List.map_cons, List.sum_cons]
      omega
    · simp only [List.nil_append, List.map_cons, List.sum_cons]
      omega
  have hsize : (s.live.map (·.size)).sum + (s.pool.freeList.map (·.size)).sum = s.pool.total := by
    have hsum := h.fills.size
    rw [List.map_append, List.sum_append] at hsum
    exact hsum
  have hsame : pool.stats.total = s.pool.total := htotal
  omega

/-- An acquisition of the size of an order keeps every byte accounted for. -/
theorem Accounted.acquire_order (h : Accounted s)
    (hok : s.pool.acquire size = (.ok handle, pool)) (hsize : sizeOfOrder (orderOf size) = size) :
    Accounted ⟨pool, (handle, size) :: s.held⟩ := by
  obtain ⟨htable, hkeyed, henough⟩ := h.acquire hok
  obtain ⟨hpos, block, rest, hfree, hfits, rfl, htotal, hrest, -⟩ := acquire_ok hok
  refine ⟨?_, List.forall_mem_cons.mpr ⟨henough, h.enough⟩, htable, hkeyed⟩
  have hhandle : BlockHandle.block ⟨block.offset, orderOf size⟩ = ⟨block.offset, size⟩ := by
    rw [BlockHandle.block, hsize]
  have hbefore : Fills s.pool.total (block :: (s.live ++ rest)) :=
    h.fills.perm ((hfree.append_left _).trans List.perm_middle)
  show Fills pool.total (BlockHandle.block _ :: s.live ++ pool.freeList)
  rw [htotal, hhandle]
  rw [remainder] at hrest
  split_ifs at hrest with hlt
  · refine (hbefore.split hpos hlt).perm (.cons _ ?_)
    exact .trans List.perm_middle.symm (hrest.symm.append_left _)
  · have hsame : block = ⟨block.offset, size⟩ := by
      have heq : block.size = size := le_antisymm (not_lt.mp hlt) hfits
      rw [← heq]
    rw [hsame] at hbefore
    exact hbefore.perm (.cons _ (hrest.symm.append_left _))

end Acquire

/-! ## One release -/

theorem entries_perm_erase {m : AList fun _ : Nat => BlockHandle} {a : Nat} {b : BlockHandle}
    (h : b ∈ m.lookup a) : m.entries.Perm (⟨a, b⟩ :: (m.erase a).entries) := by
  have hmem : a ∈ m.entries.keys := AList.lookup_isSome.mp (Option.isSome_iff_exists.mpr ⟨b, h⟩)
  obtain ⟨b', before, after, -, hentries, herase⟩ := List.exists_of_kerase hmem
  have hb : b = b' := by
    refine m.nodupKeys.eq_of_mk_mem (AList.mem_lookup_iff.mp h) ?_
    rw [hentries]
    exact List.mem_append_right _ List.mem_cons_self
  subst hb
  show m.entries.Perm (⟨a, b⟩ :: List.kerase a m.entries)
  rw [herase]
  nth_rewrite 1 [hentries]
  exact List.perm_middle

theorem Accounted.release (h : Accounted s) {handle : BlockHandle}
    (hheld : ∃ p ∈ s.held, p.1 = handle) : Accounted (s.step (.release handle)) := by
  obtain ⟨p, hp, hhandle⟩ := hheld
  let held' := s.held.eraseP fun x => decide (x.1 = handle)
  obtain ⟨q, hq, hheld⟩ : ∃ q : BlockHandle × Nat, q.1 = handle ∧ s.held.Perm (q :: held') := by
    obtain ⟨q, before, after, -, hq, hsplit, herase⟩ :=
      List.exists_of_eraseP (p := fun x => decide (x.1 = handle)) hp (decide_eq_true hhandle)
    refine ⟨q, of_decide_eq_true hq, ?_⟩
    show s.held.Perm (q :: s.held.eraseP fun x => decide (x.1 = handle))
    rw [herase]
    nth_rewrite 1 [hsplit]
    exact List.perm_middle
  -- the table has the handle under its offset, and nothing else there
  obtain ⟨e, he, heq⟩ := List.mem_map.mp (h.table.mem_iff.mpr (List.mem_map_of_mem hp))
  have hlookup : handle ∈ s.pool.allocated.lookup handle.offset := by
    refine AList.mem_lookup_iff.mpr ?_
    rw [← hhandle, ← heq, ← h.keyed e he]
    exact he
  obtain ⟨htotal, hfree, htable⟩ := release_known (Option.isSome_iff_exists.mpr ⟨_, hlookup⟩)
  have hentries := entries_perm_erase hlookup
  refine ⟨?_, fun x hx => h.enough x (List.mem_of_mem_eraseP hx), ?_, fun x hx => ?_⟩
  · show Fills (s.pool.release handle).total
      (held'.map (·.1.block) ++ (s.pool.release handle).freeList)
    rw [htotal]
    refine h.fills.perm ?_
    refine (((hheld.map (·.1.block)).append_right _)).trans ?_
    rw [List.map_cons, hq]
    exact List.perm_middle.symm.trans (hfree.symm.append_left _)
  · show ((s.pool.release handle).allocated.entries.map (·.2)).Perm (held'.map (·.1))
    rw [htable]
    have hperm := ((hentries.map (·.2)).symm.trans h.table).trans (hheld.map (·.1))
    rw [List.map_cons, List.map_cons, hq] at hperm
    exact hperm.cons_inv
  · rw [show (s.step (.release handle)).pool.allocated = _ from htable] at hx
    exact h.keyed x (hentries.mem_iff.mpr (List.mem_cons_of_mem _ hx))

/-! ## Runs -/

/-- An acquisition keeps the pool sound exactly when it asks for the size of an order. -/
theorem sound_step (h : Accounted s) {c : PoolCall} (hc : Disciplined s c) :
    (Sound (s.step c) ↔ AsksOrder s c) ∧ (AsksOrder s c → Accounted (s.step c)) := by
  cases c with
  | release handle =>
      have hnext := h.release (hc handle rfl)
      exact ⟨iff_of_true hnext.sound nofun, fun _ => hnext⟩
  | acquire size =>
      cases hresult : s.pool.acquire size with
      | mk result pool =>
          cases result with
          | error e =>
              obtain ⟨rfl, hnone⟩ := acquire_error hresult
              have hsame : s.step (.acquire size) = s := by
                rw [step, hresult]
              rw [hsame]
              refine ⟨iff_of_true h.sound ?_, fun _ => h⟩
              rintro _ ⟨⟩ hpos ⟨b, hb, hle⟩
              exact absurd hle (not_le.mpr (hnone hpos b hb))
          | ok handle =>
              have hnext : s.step (.acquire size) = ⟨pool, (handle, size) :: s.held⟩ := by
                rw [step, hresult]
              have hasks : AsksOrder s (.acquire size) ↔ sizeOfOrder (orderOf size) = size := by
                obtain ⟨hpos, block, rest, hfree, hfits, -⟩ := acquire_ok hresult
                constructor
                · intro hasks
                  exact hasks size rfl hpos ⟨block, hfree.mem_iff.mpr List.mem_cons_self, hfits⟩
                · rintro hsize _ ⟨⟩ - -
                  exact hsize
              have hkeep : sizeOfOrder (orderOf size) = size →
                  Accounted ⟨pool, (handle, size) :: s.held⟩ := h.acquire_order hresult
              rw [hasks, hnext]
              refine ⟨⟨fun hsound => ?_, fun hsize => (hkeep hsize).sound⟩, hkeep⟩
              have hadds := h.adds_acquire hresult
              have hsum := hsound.adds
              simp only at hsum
              omega

/-- In a pool that is used with discipline, everything is sound throughout exactly when each
acquisition that finds a block asks for the size of an order, sixteen times a power of two. -/
theorem sound_iff {total : Nat} {pool : SecurePool} (h : new total = .ok pool)
    {calls : List PoolCall} (hcalls : Run.Along step Disciplined ⟨pool, []⟩ calls) :
    Run.Throughout step Sound ⟨pool, []⟩ calls ↔ Run.Along step AsksOrder ⟨pool, []⟩ calls :=
  Run.throughout_iff step (fun _ hs => hs.sound) (fun _ _ hs hc => (sound_step hs hc).1)
    (fun _ _ hs hc => (sound_step hs hc).2) (accounted_start h) hcalls

/-! An arena of 64 bytes. -/

def arena64 : SecurePool := ⟨64, [⟨0, 64⟩], ∅⟩

theorem new_arena64 : new 64 = .ok arena64 := rfl

/-- Blocks of 16 and 32 bytes. -/
def ordersRun : List PoolCall := [.acquire 16, .acquire 32, .release ⟨0, 0⟩, .acquire 16]

theorem along_ordersRun : Run.Along step Disciplined ⟨arena64, []⟩ ordersRun := by
  refine ⟨nofun, nofun, ?_, nofun, trivial⟩
  rintro handle ⟨⟩
  decide

theorem sound_iff_orders : Run.Throughout step Sound ⟨arena64, []⟩ ordersRun := by
  refine (sound_iff new_arena64 along_ordersRun).mpr ⟨?_, ?_, nofun, ?_, trivial⟩
  · rintro size ⟨⟩ - -
    decide
  · rintro size ⟨⟩ - -
    decide
  · rintro size ⟨⟩ - -
    decide

/-- After ten bytes are acquired and released, two live blocks overlap. -/
def overlapRun : List PoolCall := [.acquire 10, .release ⟨0, 0⟩, .acquire 16, .acquire 16]

theorem not_sound_overlapRun : Run.Along step Disciplined ⟨arena64, []⟩ overlapRun ∧
    (Run.after step ⟨arena64, []⟩ overlapRun).live = [⟨10, 16⟩, ⟨0, 16⟩] ∧
      ¬ Run.Throughout step Sound ⟨arena64, []⟩ overlapRun := by
  refine ⟨⟨nofun, ?_, nofun, nofun, trivial⟩, by decide, fun h => ?_⟩
  · rintro handle ⟨⟩
    decide
  · have hapart := (h _ (List.prefix_refl _)).disjoint
    revert hapart
    decide

end Client

end SecurePool

/-
# `Cognos.Memory.AnfsCache` — the cache and its byte counter

`cache.rs`: a map with the order its keys came in, of bounded size, and over two of them the
cache of the file system with a counter of the bytes it holds.  `insert` adds the length of
the new data to the counter; what the new data replaces or drives out is not taken off.

    Ordered         the order lists the keys, and there are no more than fit
    Spares          the condition on an insert that keeps the counter right
    accounted_iff   a run keeps the books throughout exactly when its inserts spare what is held;
                    and an entry goes only when it is invalidated or driven out of a full cache
-/
import Mathlib
import Cognos.Lib.Run

namespace AnfsStore

/-! ## The map with its order -/

/-- `LruCache`: the entries, and their keys, oldest first. -/
structure LruCache (κ ν : Type) [DecidableEq κ] where
  inner : AList fun _ : κ => ν
  order : List κ
  capacity : Nat

namespace LruCache

variable {κ ν : Type} [DecidableEq κ]

def new (capacity : Nat) : LruCache κ ν := ⟨∅, [], max capacity 1⟩

def get (c : LruCache κ ν) (key : κ) : Option ν := c.inner.lookup key

def len (c : LruCache κ ν) : Nat := c.inner.keys.length

def remove (c : LruCache κ ν) (key : κ) : Option ν × LruCache κ ν :=
  (c.inner.lookup key,
    { c with inner := c.inner.erase key, order := c.order.filter fun k => decide (k ≠ key) })

/-- A new key comes into a full cache. -/
def Crowds (c : LruCache κ ν) (key : κ) : Prop := key ∉ c.inner ∧ c.capacity ≤ c.len

instance (c : LruCache κ ν) (key : κ) : Decidable (c.Crowds key) :=
  inferInstanceAs (Decidable (_ ∧ _))

/-- The oldest entry goes to make room for the key. -/
def makeRoom (c : LruCache κ ν) (key : κ) : Option (κ × ν) × LruCache κ ν :=
  if c.Crowds key then
    match c.order.head? with
    | some old => (((c.remove old).1).map (old, ·), (c.remove old).2)
    | none => (none, c)
  else (none, c)

/-- `insert`: what was evicted, and the cache. -/
def insert (c : LruCache κ ν) (key : κ) (value : ν) : Option (κ × ν) × LruCache κ ν :=
  let c' := (c.makeRoom key).2
  ((c.makeRoom key).1,
    { c' with
      inner := c'.inner.insert key value
      order := if key ∈ c'.inner then c'.order else c'.order ++ [key] })

omit [DecidableEq κ] in
theorem keys_map (entries : List (Sigma fun _ : κ => ν)) (f : κ → ν → ν) :
    (entries.map fun e => (⟨e.1, f e.1 e.2⟩ : Sigma fun _ : κ => ν)).keys = entries.keys := by
  unfold List.keys
  rw [List.map_map]
  rfl

theorem nodupKeys_map (c : LruCache κ ν) (f : κ → ν → ν) :
    (c.inner.entries.map fun e => (⟨e.1, f e.1 e.2⟩ : Sigma fun _ : κ => ν)).NodupKeys := by
  unfold List.NodupKeys
  rw [keys_map]
  exact c.inner.nodupKeys

/-- The values are changed where they are, as through `iter_mut`. -/
def change (c : LruCache κ ν) (f : κ → ν → ν) : LruCache κ ν :=
  { c with inner := ⟨c.inner.entries.map fun e => ⟨e.1, f e.1 e.2⟩, c.nodupKeys_map f⟩ }

/-- `get_mut`: the value of one key is changed where it is. -/
def getMut (c : LruCache κ ν) (key : κ) (f : ν → ν) : LruCache κ ν :=
  c.change fun k value => if k = key then f value else value

/-- The order lists the keys, and there are no more than fit. -/
structure Ordered (c : LruCache κ ν) : Prop where
  perm : c.order.Perm c.inner.keys
  bounded : c.len ≤ c.capacity
  roomy : 0 < c.capacity

theorem ordered_new (capacity : Nat) : Ordered (new capacity : LruCache κ ν) :=
  ⟨List.Perm.refl _, Nat.zero_le _, lt_of_lt_of_le Nat.one_pos (le_max_right _ _)⟩

variable {c : LruCache κ ν}

theorem Ordered.remove (h : c.Ordered) (key : κ) : (c.remove key).2.Ordered where
  perm := by
    have hkeys : (c.inner.erase key).keys = c.inner.keys.filter fun k => decide (k ≠ key) := by
      rw [AList.keys_erase, c.inner.keys_nodup.erase_eq_filter]
      refine List.filter_congr fun k _ => ?_
      rw [bne, decide_not]
      rfl
    show (c.order.filter _).Perm (c.inner.erase key).keys
    rw [hkeys]
    exact h.perm.filter _
  bounded := by
    show (c.inner.erase key).keys.length ≤ c.capacity
    rw [AList.keys_erase]
    exact (List.length_erase_le).trans h.bounded
  roomy := h.roomy

theorem Ordered.change (h : c.Ordered) (f : κ → ν → ν) : (c.change f).Ordered where
  perm := by
    show c.order.Perm (c.inner.entries.map _).keys
    rw [keys_map]
    exact h.perm
  bounded := by
    show (c.inner.entries.map _).keys.length ≤ c.capacity
    rw [keys_map]
    exact h.bounded
  roomy := h.roomy

theorem Ordered.getMut (h : c.Ordered) (key : κ) (f : ν → ν) : (c.getMut key f).Ordered :=
  h.change _

theorem mem_change {k : κ} {f : κ → ν → ν} : k ∈ (c.change f).inner ↔ k ∈ c.inner := by
  show k ∈ (c.inner.entries.map _).keys ↔ k ∈ c.inner.entries.keys
  rw [keys_map]

theorem capacity_makeRoom (key : κ) : (c.makeRoom key).2.capacity = c.capacity := by
  unfold makeRoom
  split
  · split <;> rfl
  · rfl

/-- Where room is made the oldest entry goes, and otherwise none. -/
theorem Ordered.makeRoom_eq (h : c.Ordered) (key : κ) :
    (¬ c.Crowds key ∧ (c.makeRoom key).2 = c) ∨
      (c.Crowds key ∧ ∃ old, c.order.head? = some old ∧ old ∈ c.inner ∧
        (c.makeRoom key).2 = (c.remove old).2) := by
  unfold makeRoom
  by_cases hcrowds : c.Crowds key
  · rw [if_pos hcrowds]
    refine Or.inr ⟨hcrowds, ?_⟩
    cases horder : c.order with
    | nil =>
        have hlength := h.perm.length_eq
        have hfull : c.capacity ≤ c.inner.keys.length := hcrowds.2
        rw [horder] at hlength
        rw [← hlength] at hfull
        exact absurd hfull (not_le.mpr h.roomy)
    | cons old rest =>
        have hmem : old ∈ c.inner.keys := by
          rw [← h.perm.mem_iff, horder]
          exact List.mem_cons_self
        exact ⟨old, rfl, hmem, rfl⟩
  · rw [if_neg hcrowds]
    exact Or.inl ⟨hcrowds, rfl⟩

theorem Ordered.makeRoom (h : c.Ordered) (key : κ) : (c.makeRoom key).2.Ordered := by
  rcases h.makeRoom_eq key with ⟨-, hsame⟩ | ⟨-, old, -, -, hremove⟩
  · rw [hsame]
    exact h
  · rw [hremove]
    exact h.remove old

/-- After room was made a new key fits in. -/
theorem Ordered.len_makeRoom (h : c.Ordered) {key : κ}
    (hkey : key ∉ (c.makeRoom key).2.inner) : (c.makeRoom key).2.len < c.capacity := by
  rcases h.makeRoom_eq key with ⟨hcrowds, hsame⟩ | ⟨hcrowds, old, -, hold, hremove⟩
  · rw [hsame] at hkey ⊢
    by_contra hfull
    exact hcrowds ⟨hkey, not_lt.mp hfull⟩
  · rw [hremove]
    show (c.inner.erase old).keys.length < c.capacity
    have hpos := List.length_pos_of_mem (AList.mem_keys.mp hold)
    have hbounded : c.inner.keys.length ≤ c.capacity := h.bounded
    rw [AList.keys_erase, List.length_erase_of_mem (AList.mem_keys.mp hold)]
    omega

theorem Ordered.insert (h : c.Ordered) (key : κ) (value : ν) :
    (c.insert key value).2.Ordered where
  perm := by
    have hroom := h.makeRoom key
    show (if key ∈ (c.makeRoom key).2.inner then _ else _ : List κ).Perm
      ((c.makeRoom key).2.inner.insert key value).keys
    rw [AList.keys_insert]
    split
    · next hkey =>
      exact hroom.perm.trans (List.perm_cons_erase (AList.mem_keys.mp hkey))
    · next hkey =>
      rw [List.erase_of_not_mem (mt AList.mem_keys.mpr hkey)]
      exact (List.perm_append_singleton key _).trans (hroom.perm.cons key)
  bounded := by
    show ((c.makeRoom key).2.inner.insert key value).keys.length ≤ (c.makeRoom key).2.capacity
    rw [AList.keys_insert, List.length_cons, capacity_makeRoom]
    by_cases hkey : key ∈ (c.makeRoom key).2.inner
    · have hbounded : (c.makeRoom key).2.inner.keys.length ≤ (c.makeRoom key).2.capacity :=
        (h.makeRoom key).bounded
      have hpos := List.length_pos_of_mem (AList.mem_keys.mp hkey)
      rw [capacity_makeRoom] at hbounded
      rw [List.length_erase_of_mem (AList.mem_keys.mp hkey)]
      omega
    · rw [List.erase_of_not_mem (mt AList.mem_keys.mpr hkey)]
      exact h.len_makeRoom hkey
  roomy := by
    show 0 < (c.makeRoom key).2.capacity
    rw [capacity_makeRoom]
    exact h.roomy

/-- What an insert drops: the oldest entry, where a new key comes into a full cache. -/
theorem Ordered.dropped (h : c.Ordered) {key k : κ} {value : ν} (hk : k ∈ c.inner)
    (hgone : k ∉ (c.insert key value).2.inner) :
    c.Crowds key ∧ c.order.head? = some k := by
  have hroom : k ∉ (c.makeRoom key).2.inner := fun hmem =>
    hgone ((AList.mem_insert _).mpr (Or.inr hmem))
  rcases h.makeRoom_eq key with ⟨-, hsame⟩ | ⟨hcrowds, old, hhead, -, hremove⟩
  · rw [hsame] at hroom
    exact absurd hk hroom
  · rw [hremove] at hroom
    have hold : k = old := by
      by_contra hne
      exact hroom ((AList.mem_erase).mpr ⟨hne, hk⟩)
    exact ⟨hcrowds, hold ▸ hhead⟩

end LruCache

/-! ## The bytes that are held -/

/-- A cached file's data plus its semantic tags and bookkeeping; times are milliseconds. -/
structure CachedEntry where
  data : List UInt8
  tags : Finset String
  expiry : Int
  dirty : Bool

/-- Cached metadata summary for a path. -/
structure Metadata where
  size : Nat
  mtimeSecs : Int
  uid : Nat
  gid : Nat
  mode : Nat
  tags : Finset String

namespace LruCache

/-- The sum of the lengths of the cached data. -/
def bytesHeld {κ : Type} [DecidableEq κ] (c : LruCache κ CachedEntry) : Nat :=
  (c.inner.entries.map fun e => e.2.data.length).sum

/-- The length of what is held for a key. -/
def bytesAt {κ : Type} [DecidableEq κ] (c : LruCache κ CachedEntry) (key : κ) : Nat :=
  ((c.inner.lookup key).map fun e => e.data.length).getD 0

end LruCache

theorem sum_kerase {κ : Type} [DecidableEq κ] (f : CachedEntry → Nat) (key : κ)
    (l : List (Sigma fun _ : κ => CachedEntry)) :
    ((l.kerase key).map fun e => f e.2).sum + ((l.dlookup key).map f).getD 0 =
      (l.map fun e => f e.2).sum := by
  induction l with
  | nil => rfl
  | cons e l ih =>
      obtain ⟨k, entry⟩ := e
      by_cases hk : key = k
      · subst hk
        have hhead : List.dlookup key (⟨key, entry⟩ :: l) = some entry := List.dlookup_cons_eq _ _ _
        have hrest : List.kerase key (⟨key, entry⟩ :: l) = l := List.kerase_cons_eq rfl
        rw [hhead, hrest, List.map_cons, List.sum_cons]
        exact Nat.add_comm _ _
      · have hskip : List.dlookup key (⟨k, entry⟩ :: l) = List.dlookup key l :=
          List.dlookup_cons_ne l (⟨k, entry⟩ : Sigma fun _ : κ => CachedEntry) hk
        have hkeep : List.kerase key (⟨k, entry⟩ :: l) = ⟨k, entry⟩ :: List.kerase key l :=
          List.kerase_cons_ne hk
        rw [hskip, hkeep, List.map_cons, List.sum_cons, List.map_cons, List.sum_cons,
          Nat.add_assoc, ih]

namespace LruCache

variable {κ : Type} [DecidableEq κ] {c : LruCache κ CachedEntry}

theorem bytesHeld_remove (c : LruCache κ CachedEntry) (key : κ) :
    (c.remove key).2.bytesHeld + c.bytesAt key = c.bytesHeld :=
  sum_kerase (fun e => e.data.length) key c.inner.entries

/-- What an insert throws out: the oldest data of a full cache, or the old data of the key. -/
def thrownOut (c : LruCache κ CachedEntry) (key : κ) : Nat :=
  if c.Crowds key then (c.order.head?.map c.bytesAt).getD 0 else c.bytesAt key

theorem bytesAt_of_notMem {key : κ} (h : key ∉ c.inner) : c.bytesAt key = 0 := by
  have hnone : c.inner.lookup key = none := AList.lookup_eq_none.mpr h
  rw [bytesAt, hnone]
  rfl

/-- Putting an entry in the place of the key's old one. -/
theorem bytesHeld_put (c : LruCache κ CachedEntry) (key : κ) (entry : CachedEntry)
    (order : List κ) :
    bytesHeld { c with inner := c.inner.insert key entry, order := order } + c.bytesAt key =
      c.bytesHeld + entry.data.length := by
  have hremove := c.bytesHeld_remove key
  have hput : bytesHeld { c with inner := c.inner.insert key entry, order := order } =
      entry.data.length + (c.remove key).2.bytesHeld := rfl
  omega

theorem Ordered.bytesHeld_insert (h : c.Ordered) (key : κ) (entry : CachedEntry) :
    (c.insert key entry).2.bytesHeld + c.thrownOut key = c.bytesHeld + entry.data.length := by
  have hput : (c.insert key entry).2.bytesHeld + (c.makeRoom key).2.bytesAt key =
      (c.makeRoom key).2.bytesHeld + entry.data.length :=
    bytesHeld_put _ key entry _
  unfold thrownOut
  rcases h.makeRoom_eq key with ⟨hcrowds, hsame⟩ | ⟨hcrowds, old, hhead, hold, hremove⟩
  · rw [hsame] at hput
    rw [if_neg hcrowds]
    exact hput
  · have hgone : key ∉ (c.remove old).2.inner := fun hmem =>
      hcrowds.1 (AList.mem_erase.mp hmem).2
    have hfreed := c.bytesHeld_remove old
    rw [hremove, bytesAt_of_notMem hgone, Nat.add_zero] at hput
    rw [if_pos hcrowds, hhead, Option.map_some, Option.getD_some]
    omega

theorem bytesHeld_change (c : LruCache κ CachedEntry) {f : κ → CachedEntry → CachedEntry}
    (hf : ∀ k entry, (f k entry).data = entry.data) : (c.change f).bytesHeld = c.bytesHeld := by
  show (((c.inner.entries.map _).map _).sum : Nat) = _
  rw [List.map_map]
  refine congrArg List.sum (List.map_congr_left fun e _ => ?_)
  exact congrArg List.length (hf e.1 e.2)

end LruCache

/-! ## The cache -/

variable {π : Type} [DecidableEq π]

/-- `AnfsCache`, keyed by paths. -/
structure AnfsCache (π : Type) [DecidableEq π] where
  data : LruCache π CachedEntry
  metadata : LruCache π Metadata
  maxBytes : Nat
  currentBytes : Nat
  defaultTtl : Int

/-- A call; `insert` comes with the time the clock shows. -/
inductive CacheAct (π : Type)
  | insert (path : π) (data : List UInt8) (tags : Finset String) (now : Int)
  | read (path : π)
  | markDirty (path : π)
  | invalidate (path : π)
  | flushDirty

namespace AnfsCache

def new (maxBytes metadataCapacity : Nat) : AnfsCache π :=
  ⟨LruCache.new 1024, LruCache.new metadataCapacity, maxBytes, 0, 30000⟩

def read (c : AnfsCache π) (path : π) : Option CachedEntry := c.data.get path

/-- The sum that is compared with the budget is past what the counter's type holds. -/
def Overflows (c : AnfsCache π) (len : Nat) : Prop := 2 ^ 64 ≤ c.currentBytes + len

instance (c : AnfsCache π) (len : Nat) : Decidable (c.Overflows len) :=
  inferInstanceAs (Decidable (_ ≤ _))

/-- `insert`.  Going over the budget is logged only; a build that checks additions panics where
the sum overflows, and has changed nothing yet. -/
def insert (checked : Bool) (c : AnfsCache π) (path : π) (data : List UInt8)
    (tags : Finset String) (now : Int) : AnfsCache π :=
  if checked ∧ c.Overflows data.length then c
  else
    { c with
      currentBytes := min (c.currentBytes + data.length) (2 ^ 64 - 1)
      data := (c.data.insert path ⟨data, tags, now + c.defaultTtl, false⟩).2
      metadata := (c.metadata.insert path ⟨data.length, 0, 0, 0, 0o644, tags⟩).2 }

def invalidate (c : AnfsCache π) (path : π) : AnfsCache π :=
  { c with
    currentBytes :=
      match (c.data.remove path).1 with
      | some removed => c.currentBytes - removed.data.length
      | none => c.currentBytes
    data := (c.data.remove path).2
    metadata := (c.metadata.remove path).2 }

/-- `read_mut` and `mark_dirty` on what it finds. -/
def markDirty (c : AnfsCache π) (path : π) : AnfsCache π :=
  { c with data := c.data.getMut path fun entry => { entry with dirty := true } }

/-- `flush_dirty`, which only takes the marks off. -/
def flushDirty (c : AnfsCache π) : AnfsCache π :=
  { c with data := c.data.change fun _ entry =>
      if entry.dirty then { entry with dirty := false } else entry }

def step (checked : Bool) (c : AnfsCache π) : CacheAct π → AnfsCache π
  | .insert path data tags now => c.insert checked path data tags now
  | .read _ => c
  | .markDirty path => c.markDirty path
  | .invalidate path => c.invalidate path
  | .flushDirty => c.flushDirty

/-! ## The books -/

/-- Both caches are in order. -/
structure InOrder (c : AnfsCache π) : Prop where
  data : c.data.Ordered
  metadata : c.metadata.Ordered

/-- Both caches are in order, and the counter says what is held. -/
structure Accounted (c : AnfsCache π) : Prop extends InOrder c where
  counter : c.currentBytes = c.data.bytesHeld

theorem accounted_new (maxBytes metadataCapacity : Nat) :
    Accounted (new maxBytes metadataCapacity : AnfsCache π) :=
  ⟨⟨LruCache.ordered_new _, LruCache.ordered_new _⟩, rfl⟩

theorem InOrder.step {c : AnfsCache π} (h : c.InOrder) (checked : Bool) (a : CacheAct π) :
    (c.step checked a).InOrder := by
  cases a with
  | insert path data tags now =>
      show (if checked ∧ c.Overflows data.length then c else _ : AnfsCache π).InOrder
      split
      · exact h
      · exact ⟨h.data.insert _ _, h.metadata.insert _ _⟩
  | read path => exact h
  | markDirty path =>
      exact ⟨h.data.getMut path fun entry => { entry with dirty := true }, h.metadata⟩
  | invalidate path => exact ⟨h.data.remove _, h.metadata.remove _⟩
  | flushDirty =>
      exact ⟨h.data.change fun _ entry =>
        if entry.dirty then { entry with dirty := false } else entry, h.metadata⟩

/-- A call that keeps the counter right: an insert throws nothing out (up to what is past the
counter's end), or panics. -/
def Spares (checked : Bool) (c : AnfsCache π) : CacheAct π → Prop
  | .insert path data _ _ =>
      (checked ∧ c.Overflows data.length) ∨
        c.data.thrownOut path = c.currentBytes + data.length - (2 ^ 64 - 1)
  | .read _ | .markDirty _ | .invalidate _ | .flushDirty => True

theorem counter_invalidate (c : AnfsCache π) (path : π) :
    (c.invalidate path).currentBytes = c.currentBytes - c.data.bytesAt path := by
  unfold invalidate LruCache.remove LruCache.bytesAt
  cases c.data.inner.lookup path with
  | none => rfl
  | some removed => rfl

theorem Accounted.step_iff {c : AnfsCache π} (h : c.Accounted) (checked : Bool) (a : CacheAct π) :
    (c.step checked a).Accounted ↔ c.Spares checked a := by
  have horder := h.toInOrder.step checked a
  have hiff : (c.step checked a).Accounted ↔
      (c.step checked a).currentBytes = (c.step checked a).data.bytesHeld :=
    ⟨fun hnext => hnext.counter, fun hcounter => ⟨horder, hcounter⟩⟩
  have hheld := h.counter
  rw [hiff]
  cases a with
  | insert path data tags now =>
      show ((if checked ∧ c.Overflows data.length then c else _ : AnfsCache π).currentBytes = _) ↔
        (checked ∧ c.Overflows data.length) ∨ _
      have hstep : c.step checked (.insert path data tags now) =
        if checked ∧ c.Overflows data.length then c else _ := rfl
      rw [hstep]
      by_cases hpanics : checked ∧ c.Overflows data.length
      · rw [if_pos hpanics]
        exact iff_of_true hheld (Or.inl hpanics)
      · rw [if_neg hpanics, or_iff_right hpanics]
        have hinsert := h.data.bytesHeld_insert path ⟨data, tags, now + c.defaultTtl, false⟩
        show min (c.currentBytes + data.length) (2 ^ 64 - 1) = (c.data.insert path _).2.bytesHeld ↔
          c.data.thrownOut path = c.currentBytes + data.length - (2 ^ 64 - 1)
        have hlength : (⟨data, tags, now + c.defaultTtl, false⟩ : CachedEntry).data.length =
          data.length := rfl
        omega
  | read path => exact iff_of_true hheld trivial
  | markDirty path =>
      refine iff_of_true ?_ trivial
      show c.currentBytes = (c.data.change _).bytesHeld
      rw [c.data.bytesHeld_change, hheld]
      intro k entry
      split <;> rfl
  | invalidate path =>
      refine iff_of_true ?_ trivial
      have hremove := c.data.bytesHeld_remove path
      show (c.invalidate path).currentBytes = (c.data.remove path).2.bytesHeld
      rw [counter_invalidate]
      omega
  | flushDirty =>
      refine iff_of_true ?_ trivial
      show c.currentBytes = (c.data.change _).bytesHeld
      rw [c.data.bytesHeld_change, hheld]
      intro k entry
      split <;> rfl

/-! ## What is dropped -/

/-- The call invalidates the key, or brings a new one into a full cache that has had this one
the longest. -/
def Excused {ν : Type} (c : LruCache π ν) (k : π) : CacheAct π → Prop
  | .insert path _ _ _ => c.Crowds path ∧ c.order.head? = some k
  | .invalidate path => path = k
  | .read _ | .markDirty _ | .flushDirty => False

/-- Every entry that is gone after a call was dropped for a reason. -/
def DropsExcused (checked : Bool) (c : AnfsCache π) (a : CacheAct π) : Prop :=
  (∀ k ∈ c.data.inner, k ∉ (c.step checked a).data.inner → Excused c.data k a) ∧
    ∀ k ∈ c.metadata.inner, k ∉ (c.step checked a).metadata.inner → Excused c.metadata k a

theorem LruCache.eq_of_removed {ν : Type} {c : LruCache π ν} {k path : π} (hk : k ∈ c.inner)
    (hgone : k ∉ (c.remove path).2.inner) : path = k := by
  by_contra hne
  exact hgone (AList.mem_erase.mpr ⟨Ne.symm hne, hk⟩)

theorem InOrder.dropsExcused {c : AnfsCache π} (h : c.InOrder) (checked : Bool)
    (a : CacheAct π) : DropsExcused checked c a := by
  cases a with
  | insert path data tags now =>
      have hstep : c.step checked (.insert path data tags now) =
        if checked ∧ c.Overflows data.length then c else _ := rfl
      rw [DropsExcused, hstep]
      split
      · exact ⟨fun k hk hgone => absurd hk hgone, fun k hk hgone => absurd hk hgone⟩
      · exact ⟨fun k hk hgone => h.data.dropped hk hgone,
          fun k hk hgone => h.metadata.dropped hk hgone⟩
  | read path => exact ⟨fun k hk hgone => absurd hk hgone, fun k hk hgone => absurd hk hgone⟩
  | markDirty path =>
      exact ⟨fun k hk hgone => absurd (LruCache.mem_change.mpr hk) hgone,
        fun k hk hgone => absurd hk hgone⟩
  | invalidate path =>
      exact ⟨fun k hk hgone => LruCache.eq_of_removed hk hgone,
        fun k hk hgone => LruCache.eq_of_removed hk hgone⟩
  | flushDirty =>
      exact ⟨fun k hk hgone => absurd (LruCache.mem_change.mpr hk) hgone,
        fun k hk hgone => absurd hk hgone⟩

/-! ## Runs -/

/-- Whatever is called, both caches stay in order and drop nothing without a reason. -/
theorem dropsExcused_along {c : AnfsCache π} (h : c.InOrder) (checked : Bool)
    (acts : List (CacheAct π)) :
    Run.Along (step checked) (DropsExcused checked) c acts := by
  induction acts generalizing c with
  | nil => trivial
  | cons a acts ih => exact ⟨h.dropsExcused checked a, ih (h.step checked a)⟩

/-- The books are right all along a run, and each entry dropped for a reason, exactly when no
insert of the run throws data out. -/
theorem accounted_iff (checked : Bool) (maxBytes metadataCapacity : Nat)
    (acts : List (CacheAct π)) :
    (Run.Throughout (step checked) Accounted (new maxBytes metadataCapacity) acts ∧
        Run.Along (step checked) (DropsExcused checked) (new maxBytes metadataCapacity) acts) ↔
      Run.Along (step checked) (Spares checked) (new maxBytes metadataCapacity) acts := by
  have hnew := accounted_new (π := π) maxBytes metadataCapacity
  have hdrops := dropsExcused_along hnew.toInOrder checked acts
  rw [Run.throughout_invariant_iff (step checked) (fun _ a h => h.step_iff checked a) hnew]
  exact and_iff_left hdrops

/-- The same file cached twice is counted twice. -/
theorem not_accounted_overwrite :
    ¬ ∀ (checked : Bool) (maxBytes metadataCapacity : Nat) (acts : List (CacheAct String)),
      Run.Throughout (step checked) Accounted (new maxBytes metadataCapacity) acts ∧
        Run.Along (step checked) (DropsExcused checked) (new maxBytes metadataCapacity) acts := by
  intro h
  have hafter := (h true 1000 10 [.insert "a" [1] ∅ 0, .insert "a" [2] ∅ 0]).1 _ List.prefix_rfl
  have hcounter : (2 : Nat) = 1 := hafter.counter
  omega

end AnfsCache

end AnfsStore

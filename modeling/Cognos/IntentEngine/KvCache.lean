/-
# `Cognos.IntentEngine.KvCache` — the cache of repeated intents

`IntentKvCache` of `schema_validator.rs`: intents by the hash of what was asked, at most a
hundred, none older than four hours.  Time is counted in nanoseconds and comes from outside, as
does the order in which the map is walked.

It is meant to be a bounded map that forgets what was used least recently (`Lru`).  Two paths
lead elsewhere: a `get` of a key that is not there returns before it counts the miss, and an
`insert` into a full cache evicts before it looks whether its key is there already.

    refines_iff    the cache is such a map throughout a run exactly when no `get` asks for an
                   absent key and no `insert` overwrites in a full cache, other than what would
                   be evicted anyway
    not_refines    one `get` of an empty cache
-/
import Mathlib
import Cognos.Lib.AssocMap
import Cognos.Lib.Lru
import Cognos.Lib.Run
import Cognos.Orchestrator.TaskGraph
import Cognos.IntentEngine.SchemaValidator

namespace IntentEngine

open Orchestrator (HashOrder)

/-! ## Types -/

def maxEntries : Nat := 100

/-- Four hours. -/
def maxAgeSecs : Nat := 4 * 3600

def minConfidenceToCache : Float32 := 0.80

structure CacheEntry where
  schema : IntentSchema
  hitCount : Nat
  createdAt : Nat
  lastHitAt : Nat

structure CacheStats where
  totalEntries : Nat
  hitRate : Float32
  oldestEntryAgeSecs : Nat
  evictionCount : Nat

abbrev CacheEntries := AList fun _ : UInt64 => CacheEntry

/-- When the entry of a key was hit last. -/
def CacheEntries.lastHit (entries : CacheEntries) (key : UInt64) : Nat :=
  ((entries.lookup key).map (·.lastHitAt)).getD 0

/-- Intents under their keys, and what was counted. -/
structure IntentKvCache where
  entries : CacheEntries
  hits : Nat
  misses : Nat
  evictions : Nat

/-- `elapsed().as_secs()` -/
def elapsedSecs (since now : Nat) : Nat := (now - since) / 10 ^ 9

/-- Older than a cached intent may be. -/
def stale (createdAt now : Nat) : Bool := maxAgeSecs < elapsedSecs createdAt now

namespace IntentKvCache

/-! ## Operations -/

def new : IntentKvCache := ⟨∅, 0, 0, 0⟩

def len (c : IntentKvCache) : Nat := c.entries.keys.length

/-- Look up an intent; none where there is none, or a stale one. -/
def get (c : IntentKvCache) (now : Nat) (key : UInt64) : Option IntentSchema × IntentKvCache :=
  match c.entries.lookup key with
  | none => (none, c)
  | some entry =>
      if stale entry.createdAt now then
        (none, { c with entries := c.entries.erase key, misses := c.misses + 1 })
      else
        (some entry.schema,
          { c with
            entries := c.entries.insert key
              { entry with hitCount := entry.hitCount + 1, lastHitAt := now }
            hits := c.hits + 1 })

/-- The entry that was hit longest ago goes; of several, the first that the walk meets. -/
def evictLru (c : IntentKvCache) (walk : HashOrder UInt64) : IntentKvCache :=
  match (walk.1 c.entries.keys).argmin (CacheEntries.lastHit c.entries) with
  | some key => { c with entries := c.entries.erase key, evictions := c.evictions + 1 }
  | none => c

/-- A full cache evicts, whatever is to be inserted. -/
def makeRoom (c : IntentKvCache) (walk : HashOrder UInt64) : IntentKvCache :=
  if maxEntries ≤ c.len then c.evictLru walk else c

/-- Insert an intent, if its confidence is high. -/
def insert (c : IntentKvCache) (walk : HashOrder UInt64) (now : Nat) (key : UInt64)
    (schema : IntentSchema) : IntentKvCache :=
  if schema.confidence < minConfidenceToCache then c
  else
    let c := c.makeRoom walk
    { c with entries := c.entries.insert key ⟨schema, 0, now, now⟩ }

/-- Drop all intents of a domain. -/
def invalidateDomain (c : IntentKvCache) (domain : String) : IntentKvCache :=
  { c with entries := c.entries.retain fun _ e => e.schema.domain ≠ some domain }

def invalidateAll (c : IntentKvCache) : IntentKvCache := { c with entries := ∅ }

def stats (c : IntentKvCache) (now : Nat) : CacheStats where
  totalEntries := c.len
  hitRate :=
    if 0 < c.hits + c.misses then Float32.ofNat c.hits / Float32.ofNat (c.hits + c.misses) else 0
  oldestEntryAgeSecs := (c.entries.entries.map fun e => elapsedSecs e.2.createdAt now).foldl max 0
  evictionCount := c.evictions

end IntentKvCache

/-! ## Runs -/

inductive CacheCall
  | get (key : UInt64)
  | insert (key : UInt64) (schema : IntentSchema)
  | invalidateDomain (domain : String)
  | invalidateAll

/-- A call, its time, and the order in which the map is walked during it. -/
structure TimedCall where
  call : CacheCall
  now : Nat
  walk : HashOrder UInt64

/-- A cache and what its `get`s have answered, the last answer first. -/
structure Cached where
  cache : IntentKvCache
  answers : List (Option IntentSchema)

def Cached.step (s : Cached) (a : TimedCall) : Cached :=
  match a.call with
  | .get key => ⟨(s.cache.get a.now key).2, (s.cache.get a.now key).1 :: s.answers⟩
  | .insert key schema => { s with cache := s.cache.insert a.walk a.now key schema }
  | .invalidateDomain domain => { s with cache := s.cache.invalidateDomain domain }
  | .invalidateAll => { s with cache := s.cache.invalidateAll }

/-- What the cache is meant to be: a bounded map that forgets the least recently used. -/
structure Expected where
  slots : Lru.Slots UInt64 IntentSchema
  answers : List (Option IntentSchema)

def Expected.step (t : Expected) (a : TimedCall) : Expected :=
  match a.call with
  | .get key =>
      ⟨(Lru.get (stale · a.now) t.slots key).2,
        (Lru.get (stale · a.now) t.slots key).1 :: t.answers⟩
  | .insert key schema =>
      if schema.confidence < minConfidenceToCache then t
      else { t with slots := Lru.put maxEntries a.now t.slots key schema }
  | .invalidateDomain domain =>
      { t with slots := t.slots.filter fun s => s.value.domain ≠ some domain }
  | .invalidateAll => { t with slots := [] }

/-- Both side by side. -/
def sideBySide (p : Cached × Expected) (a : TimedCall) : Cached × Expected :=
  (p.1.step a, p.2.step a)

def bothEmpty : Cached × Expected := (⟨.new, []⟩, ⟨[], []⟩)

/-! ## Refinement -/

/-- Entries hold the slots of a bounded map, and their order is that of the last hits. -/
structure Holds (entries : CacheEntries) (l : Lru.Slots UInt64 IntentSchema) : Prop where
  nodup : (l.map (·.key)).Nodup
  entry : ∀ k, (entries.lookup k).map (fun e => (e.schema, e.createdAt)) =
    (Lru.find l k).map fun s => (s.value, s.born)
  recent : l.Pairwise fun s t =>
    CacheEntries.lastHit entries t.key < CacheEntries.lastHit entries s.key

/-- The cache is the bounded map: it holds the same, within the bound, its `get`s have answered
the same, and each of them was counted. -/
structure Refines (p : Cached × Expected) : Prop where
  holds : Holds p.1.cache.entries p.2.slots
  bound : p.1.cache.len ≤ maxEntries
  answers : p.1.answers = p.2.answers
  counted : p.1.cache.hits + p.1.cache.misses = p.1.answers.length

/-- A call on which the cache does what the bounded map does: a `get` finds its key, and an
`insert` that is taken overwrites nothing in a full cache, but for the entry hit longest ago. -/
def Met (p : Cached × Expected) (a : TimedCall) : Prop :=
  match a.call with
  | .get key => key ∈ p.1.cache.entries
  | .insert key schema => schema.confidence < minConfidenceToCache ∨
      key ∉ p.1.cache.entries ∨ p.1.cache.len < maxEntries ∨
      ∀ k ∈ p.1.cache.entries,
        CacheEntries.lastHit p.1.cache.entries key ≤ CacheEntries.lastHit p.1.cache.entries k
  | _ => True

/-- Later than every hit. -/
def Later (p : Cached × Expected) (a : TimedCall) : Prop :=
  ∀ k ∈ p.1.cache.entries, CacheEntries.lastHit p.1.cache.entries k < a.now

namespace Holds

variable {entries : CacheEntries} {l : Lru.Slots UInt64 IntentSchema}

theorem mem_iff (h : Holds entries l) {k : UInt64} : k ∈ entries ↔ k ∈ l.map (·.key) := by
  rw [← AList.lookup_isSome, ← Lru.isSome_find_iff]
  have hsome := congrArg Option.isSome (h.entry k)
  rw [Option.isSome_map, Option.isSome_map] at hsome
  rw [hsome]

theorem length_eq (h : Holds entries l) : entries.keys.length = l.length := by
  rw [← List.length_map (f := fun s : Lru.Slot UInt64 IntentSchema => s.key)]
  exact ((List.perm_ext_iff_of_nodup entries.keys_nodup h.nodup).mpr fun _ => h.mem_iff).length_eq

/-- An entry and the slot of its key. -/
theorem slot (h : Holds entries l) {k : UInt64} {e : CacheEntry} (he : entries.lookup k = some e) :
    Lru.find l k = some ⟨k, e.schema, e.createdAt⟩ := by
  have hentry := h.entry k
  rw [he] at hentry
  obtain ⟨s, hs, heq⟩ := Option.map_eq_some_iff.mp hentry.symm
  obtain ⟨hvalue, hborn⟩ := Prod.mk.inj heq
  rw [hs, ← hvalue, ← hborn, ← Lru.key_of_find hs]

theorem nil : Holds ∅ [] := ⟨.nil, fun _ => rfl, .nil⟩

/-- Some entries go, and their slots. -/
theorem retain (h : Holds entries l) (p : IntentSchema → Bool) :
    Holds (entries.retain fun _ e => p e.schema) (l.filter fun s => p s.value) where
  nodup := h.nodup.sublist (List.filter_sublist.map _)
  entry k := by
    rw [AList.lookup_retain, Lru.find_filter h.nodup]
    cases he : entries.lookup k with
    | none =>
        have hnone := h.entry k
        rw [he] at hnone
        rw [Option.map_eq_none_iff.mp hnone.symm]
        rfl
    | some e =>
        rw [h.slot he]
        rw [Option.filter_some, Option.filter_some]
        split_ifs
        · rfl
        · rfl
  recent := by
    have hsame : ∀ s ∈ l.filter (fun s => p s.value),
        CacheEntries.lastHit (entries.retain fun _ e => p e.schema) s.key =
          CacheEntries.lastHit entries s.key := by
      intro s hs
      obtain ⟨hs, hp⟩ := List.mem_filter.mp hs
      have hfind := h.entry s.key
      rw [Lru.find_of_mem h.nodup hs] at hfind
      obtain ⟨e, he, heq⟩ := Option.map_eq_some_iff.mp hfind
      rw [CacheEntries.lastHit, CacheEntries.lastHit, AList.lookup_retain, he,
        Option.filter_some_pos]
      rw [(Prod.mk.inj heq).1]
      exact hp
    refine (h.recent.sublist List.filter_sublist).imp_of_mem fun {s t} hs ht hst => ?_
    rw [hsame s hs, hsame t ht]
    exact hst

theorem lastHit_erase {k a : UInt64} (ha : a ≠ k) :
    CacheEntries.lastHit (entries.erase k) a = CacheEntries.lastHit entries a := by
  rw [CacheEntries.lastHit, AList.lookup_erase_ne ha]
  rfl

theorem lastHit_insert (k : UInt64) (e : CacheEntry) :
    CacheEntries.lastHit (entries.insert k e) k = e.lastHitAt := by
  rw [CacheEntries.lastHit, AList.lookup_insert]
  rfl

theorem lastHit_insert_ne {k a : UInt64} (ha : a ≠ k) (e : CacheEntry) :
    CacheEntries.lastHit (entries.insert k e) a = CacheEntries.lastHit entries a := by
  rw [CacheEntries.lastHit, AList.lookup_insert_ne ha]
  rfl

/-- An entry goes, and its slot. -/
theorem erase (h : Holds entries l) (k : UInt64) :
    Holds (entries.erase k) (Lru.without l k) where
  nodup := h.nodup.sublist (List.filter_sublist.map _)
  entry a := by
    rw [Lru.find_without h.nodup]
    split_ifs with ha
    · rw [ha, AList.lookup_erase]
      rfl
    · rw [AList.lookup_erase_ne ha]
      exact h.entry a
  recent := by
    refine (h.recent.sublist List.filter_sublist).imp_of_mem fun {s t} hs ht hst => ?_
    rw [lastHit_erase (of_decide_eq_true (List.mem_filter.mp hs).2),
      lastHit_erase (of_decide_eq_true (List.mem_filter.mp ht).2)]
    exact hst

/-- An entry is written later than all others were hit: its slot comes first. -/
theorem insert (h : Holds entries l) (k : UInt64) (e : CacheEntry)
    (hlater : ∀ a ∈ entries, CacheEntries.lastHit entries a < e.lastHitAt) :
    Holds (entries.insert k e) (⟨k, e.schema, e.createdAt⟩ :: Lru.without l k) := by
  have hrest := h.erase k
  have hkey : k ∉ (Lru.without l k).map (·.key) := by
    rw [← Lru.find_eq_none_iff, Lru.find_without h.nodup, if_pos rfl]
  have hother : ∀ s ∈ Lru.without l k, CacheEntries.lastHit (entries.insert k e) s.key =
      CacheEntries.lastHit entries s.key := fun s hs =>
    lastHit_insert_ne (of_decide_eq_true (List.mem_filter.mp hs).2) e
  refine ⟨List.nodup_cons.mpr ⟨hkey, hrest.nodup⟩, fun a => ?_, List.pairwise_cons.mpr ⟨?_, ?_⟩⟩
  · rw [Lru.find_cons]
    split_ifs with ha
    · have ha : k = a := ha
      rw [← ha, AList.lookup_insert]
      rfl
    · have ha : a ≠ k := fun heq => ha heq.symm
      rw [AList.lookup_insert_ne ha, ← hrest.entry a, AList.lookup_erase_ne ha]
  · intro s hs
    have hmem : s.key ∈ entries :=
      h.mem_iff.mpr (List.mem_map_of_mem (List.mem_filter.mp hs).1)
    show _ < CacheEntries.lastHit (AList.insert k e entries) k
    rw [hother s hs, lastHit_insert]
    exact hlater s.key hmem
  · refine (h.recent.sublist List.filter_sublist).imp_of_mem fun {s t} hs ht hst => ?_
    rw [hother s hs, hother t ht]
    exact hst

/-- The last slot is that of the entry hit longest ago, in every walk. -/
theorem argmin_eq (h : Holds entries l) (walk : HashOrder UInt64)
    {last : Lru.Slot UInt64 IntentSchema} (hlast : l.getLast? = some last) :
    (walk.1 entries.keys).argmin (CacheEntries.lastHit entries) = some last.key := by
  obtain ⟨front, rfl⟩ := List.getLast?_eq_some_iff.mp hlast
  have hwalk : ∀ k, k ∈ walk.1 entries.keys ↔ k ∈ (front ++ [last]).map (·.key) := fun k =>
    (walk.2 _).mem_iff.trans h.mem_iff
  have hmem : last.key ∈ walk.1 entries.keys :=
    (hwalk _).mpr (List.mem_map_of_mem (List.mem_append_right _ List.mem_cons_self))
  obtain ⟨k, hk⟩ : ∃ k, (walk.1 entries.keys).argmin (CacheEntries.lastHit entries) = some k := by
    refine Option.ne_none_iff_exists'.mp fun hnone => ?_
    rw [List.argmin_eq_none.mp hnone] at hmem
    cases hmem
  have hle := List.le_of_mem_argmin hmem hk
  obtain ⟨s, hs, rfl⟩ := List.mem_map.mp ((hwalk k).mp (List.argmin_mem hk))
  rw [hk]
  rcases List.mem_append.mp hs with hs | hs
  · have hlt := (List.pairwise_append.mp h.recent).2.2 s hs last List.mem_cons_self
    exact absurd hle (Nat.not_le.mpr hlt)
  · rw [List.mem_singleton.mp hs]

theorem lastHit_le (h : Holds entries l) {last : Lru.Slot UInt64 IntentSchema}
    (hlast : l.getLast? = some last) {k : UInt64} (hk : k ∈ entries) (hne : k ≠ last.key) :
    CacheEntries.lastHit entries last.key < CacheEntries.lastHit entries k := by
  obtain ⟨front, rfl⟩ := List.getLast?_eq_some_iff.mp hlast
  obtain ⟨s, hs, rfl⟩ := List.mem_map.mp (h.mem_iff.mp hk)
  rcases List.mem_append.mp hs with hs | hs
  · exact (List.pairwise_append.mp h.recent).2.2 s hs last List.mem_cons_self
  · exact absurd (congrArg Lru.Slot.key (List.mem_singleton.mp hs)) hne

end Holds

/-! ## One call -/

section Steps

variable {p : Cached × Expected} {a : TimedCall}

/-- A `get` of a key that is there is answered by both alike, and counted. -/
theorem refines_get (h : Refines p) (hlater : Later p a) {key : UInt64}
    (hmem : key ∈ p.1.cache.entries) (hcall : a.call = .get key) : Refines (sideBySide p a) := by
  obtain ⟨e, he⟩ := Option.isSome_iff_exists.mp (AList.lookup_isSome.mpr hmem)
  have hslot := h.holds.slot he
  have hcounted := h.counted
  have hlen := h.bound
  unfold sideBySide Cached.step Expected.step
  simp only [hcall, IntentKvCache.get, he, Lru.get, hslot]
  split_ifs with hstale
  · refine ⟨h.holds.erase key, ?_, congrArg (none :: ·) h.answers, ?_⟩
    · refine le_trans ?_ hlen
      show (p.1.cache.entries.erase key).keys.length ≤ p.1.cache.entries.keys.length
      rw [AList.keys_erase]
      exact List.length_erase_le
    · show p.1.cache.hits + (p.1.cache.misses + 1) = p.1.answers.length + 1
      omega
  · refine ⟨h.holds.insert key _ hlater, ?_, congrArg (some e.schema :: ·) h.answers, ?_⟩
    · refine le_trans (Nat.le_of_eq ?_) hlen
      show (p.1.cache.entries.insert key _).keys.length = p.1.cache.entries.keys.length
      rw [AList.keys_insert, List.length_cons, List.length_erase_of_mem (AList.mem_keys.mp hmem)]
      exact Nat.sub_add_cancel (List.length_pos_of_mem (AList.mem_keys.mp hmem))
    · show p.1.cache.hits + 1 + p.1.cache.misses = p.1.answers.length + 1
      omega

/-- A `get` of a key that is not there is not counted. -/
theorem not_refines_get (h : Refines p) {key : UInt64} (hmem : key ∉ p.1.cache.entries)
    (hcall : a.call = .get key) : ¬ Refines (sideBySide p a) := by
  intro hafter
  have hcounted := hafter.counted
  unfold sideBySide Cached.step at hcounted
  simp only [hcall, IntentKvCache.get, AList.lookup_eq_none.mpr hmem, List.length_cons] at hcounted
  have hbefore := h.counted
  omega

/-- What an insert that is taken leaves: the entries that stay, and the new one. -/
theorem refines_taken (h : Refines p) (hlater : Later p a) {key : UInt64} {schema : IntentSchema}
    (hcall : a.call = .insert key schema) (htaken : ¬ schema.confidence < minConfidenceToCache)
    {entries : CacheEntries} {l : Lru.Slots UInt64 IntentSchema} (hholds : Holds entries l)
    (hstay : ∀ k ∈ entries, k ∈ p.1.cache.entries ∧
      CacheEntries.lastHit entries k = CacheEntries.lastHit p.1.cache.entries k)
    (hentries : (p.1.cache.makeRoom a.walk).entries = entries)
    (hslots : Lru.makeRoom maxEntries p.2.slots key = Lru.without l key) :
    Refines (sideBySide p a) := by
  have hnew := hholds.insert key ⟨schema, 0, a.now, a.now⟩ fun k hk => by
    rw [(hstay k hk).2]
    exact hlater k (hstay k hk).1
  have hbound : (Lru.put maxEntries a.now p.2.slots key schema).length ≤ maxEntries := by
    refine Lru.length_put (by decide) ?_ _ _ _
    rw [← h.holds.length_eq]
    exact h.bound
  rw [Lru.put, hslots] at hbound
  have hcounts : (p.1.cache.makeRoom a.walk).hits = p.1.cache.hits ∧
      (p.1.cache.makeRoom a.walk).misses = p.1.cache.misses := by
    unfold IntentKvCache.makeRoom IntentKvCache.evictLru
    split_ifs
    · split
      · exact ⟨rfl, rfl⟩
      · exact ⟨rfl, rfl⟩
    · exact ⟨rfl, rfl⟩
  unfold sideBySide Cached.step Expected.step
  simp only [hcall, IntentKvCache.insert, if_neg htaken, Lru.put, hslots, hentries]
  refine ⟨hnew, hnew.length_eq.trans_le hbound, h.answers, ?_⟩
  show (p.1.cache.makeRoom a.walk).hits + (p.1.cache.makeRoom a.walk).misses = _
  rw [hcounts.1, hcounts.2]
  exact h.counted

/-- The entry that is evicted from a full cache, and its slot. -/
theorem exists_evicted (h : Refines p) (hfull : maxEntries ≤ p.1.cache.len) :
    ∃ last, p.2.slots.getLast? = some last ∧
      (p.1.cache.evictLru a.walk).entries = p.1.cache.entries.erase last.key := by
  have hne : p.2.slots ≠ [] := by
    intro hnil
    have hlen : p.1.cache.len = 0 := by
      rw [IntentKvCache.len, h.holds.length_eq, hnil]
      rfl
    rw [hlen] at hfull
    exact absurd hfull (by decide)
  refine ⟨_, List.getLast?_eq_some_getLast hne, ?_⟩
  have hmin := h.holds.argmin_eq a.walk (List.getLast?_eq_some_getLast hne)
  unfold IntentKvCache.evictLru
  rw [hmin]

theorem stay_erase (k : UInt64) : ∀ b ∈ p.1.cache.entries.erase k, b ∈ p.1.cache.entries ∧
    CacheEntries.lastHit (p.1.cache.entries.erase k) b =
      CacheEntries.lastHit p.1.cache.entries b := by
  intro b hb
  obtain ⟨hne, hmem⟩ := AList.mem_erase.mp hb
  exact ⟨hmem, Holds.lastHit_erase hne⟩

/-- An insert on which the two agree, and one on which they do not. -/
theorem refines_insert_iff (h : Refines p) (hlater : Later p a) {key : UInt64}
    {schema : IntentSchema} (hcall : a.call = .insert key schema) :
    Refines (sideBySide p a) ↔ schema.confidence < minConfidenceToCache ∨
      key ∉ p.1.cache.entries ∨ p.1.cache.len < maxEntries ∨
      ∀ k ∈ p.1.cache.entries,
        CacheEntries.lastHit p.1.cache.entries key ≤ CacheEntries.lastHit p.1.cache.entries k := by
  by_cases htaken : schema.confidence < minConfidenceToCache
  · refine iff_of_true ?_ (.inl htaken)
    unfold sideBySide Cached.step Expected.step
    simp only [hcall, IntentKvCache.insert, if_pos htaken]
    exact h
  · rw [or_iff_right htaken]
    by_cases hfull : maxEntries ≤ p.1.cache.len
    · obtain ⟨last, hlast, hevicted⟩ := exists_evicted (a := a) h hfull
      have hlength : maxEntries ≤ p.2.slots.length := h.holds.length_eq ▸ hfull
      have hentries : (p.1.cache.makeRoom a.walk).entries =
          p.1.cache.entries.erase last.key := by
        rw [IntentKvCache.makeRoom, if_pos hfull, hevicted]
      rw [or_iff_right (Nat.not_lt.mpr hfull)]
      by_cases hmem : key ∈ p.1.cache.entries
      · rw [or_iff_right (not_not.mpr hmem)]
        rcases eq_or_ne key last.key with rfl | hne
        · -- what is evicted is what is overwritten
          refine iff_of_true ?_ fun k hk => ?_
          · refine refines_taken h hlater hcall htaken (h.holds.erase last.key)
              (stay_erase last.key) hentries ?_
            rw [Lru.makeRoom_eq (.inl (h.holds.mem_iff.mp hmem))]
            refine (Lru.without_of_notMem ?_).symm
            rw [← Lru.find_eq_none_iff, Lru.find_without h.holds.nodup, if_pos rfl]
          · rcases eq_or_ne k last.key with rfl | hk'
            · exact Nat.le_refl _
            · exact (h.holds.lastHit_le hlast hk hk').le
        · -- another entry is lost
          refine iff_of_false (fun hafter => ?_) fun hleast => ?_
          · have hlost := (hafter.holds.mem_iff (k := last.key)).mpr ?_
            · unfold sideBySide Cached.step at hlost
              simp only [hcall, IntentKvCache.insert, if_neg htaken, hentries] at hlost
              rcases AList.mem_insert _ |>.mp hlost with heq | hmem'
              · exact hne heq.symm
              · exact (AList.mem_erase.mp hmem').1 rfl
            · unfold sideBySide Expected.step
              simp only [hcall, if_neg htaken, Lru.put]
              rw [Lru.makeRoom_eq (.inl (h.holds.mem_iff.mp hmem)), List.map_cons]
              refine List.mem_cons_of_mem _ (Lru.isSome_find_iff.mp ?_)
              rw [Lru.find_without h.holds.nodup, if_neg hne.symm, Lru.isSome_find_iff]
              exact List.mem_map_of_mem (List.mem_of_getLast? hlast)
          · have hin : last.key ∈ p.1.cache.entries :=
              h.holds.mem_iff.mpr (List.mem_map_of_mem (List.mem_of_getLast? hlast))
            exact Nat.not_le.mpr (h.holds.lastHit_le hlast hmem hne) (hleast _ hin)
      · refine iff_of_true ?_ (.inl hmem)
        have hkey : key ∉ p.2.slots.map (·.key) := fun hin => hmem (h.holds.mem_iff.mpr hin)
        refine refines_taken h hlater hcall htaken (h.holds.erase last.key)
          (stay_erase last.key) hentries ?_
        rw [Lru.makeRoom_full h.holds.nodup hlength hkey hlast]
        refine (Lru.without_of_notMem fun hin => hkey ?_).symm
        exact (List.filter_sublist.map _).subset hin
    · refine iff_of_true ?_ (.inr (.inl (Nat.not_le.mp hfull)))
      have hlength : p.2.slots.length < maxEntries := h.holds.length_eq ▸ Nat.not_le.mp hfull
      refine refines_taken h hlater hcall htaken h.holds (fun k hk => ⟨hk, rfl⟩)
        (by rw [IntentKvCache.makeRoom, if_neg hfull]) (Lru.makeRoom_eq (.inr hlength))

/-- The two agree after a call exactly when it is one of those. -/
theorem refines_step_iff (h : Refines p) (hlater : Later p a) :
    Refines (sideBySide p a) ↔ Met p a := by
  unfold Met
  cases hcall : a.call with
  | get key =>
      by_cases hmem : key ∈ p.1.cache.entries
      · exact iff_of_true (refines_get h hlater hmem hcall) hmem
      · exact iff_of_false (not_refines_get h hmem hcall) hmem
  | insert key schema => exact refines_insert_iff h hlater hcall
  | invalidateDomain domain =>
      refine iff_of_true ?_ trivial
      have hsub : (p.1.cache.entries.retain fun _ e =>
          e.schema.domain ≠ some domain).keys.Sublist p.1.cache.entries.keys :=
        List.filter_sublist.map _
      unfold sideBySide Cached.step Expected.step
      simp only [hcall]
      exact ⟨h.holds.retain fun s => s.domain ≠ some domain, hsub.length_le.trans h.bound,
        h.answers, h.counted⟩
  | invalidateAll =>
      refine iff_of_true ?_ trivial
      unfold sideBySide Cached.step Expected.step
      simp only [hcall]
      exact ⟨.nil, Nat.zero_le _, h.answers, h.counted⟩

/-- A call leaves an entry as hit before, or as hit now. -/
theorem lastHit_step {k : UInt64} (hk : k ∈ (sideBySide p a).1.cache.entries) :
    CacheEntries.lastHit (sideBySide p a).1.cache.entries k = a.now ∨
      k ∈ p.1.cache.entries ∧ CacheEntries.lastHit (sideBySide p a).1.cache.entries k =
        CacheEntries.lastHit p.1.cache.entries k := by
  have hinsert : ∀ (entries : CacheEntries) (key : UInt64) (e : CacheEntry), e.lastHitAt = a.now →
      (∀ b ∈ entries, b ∈ p.1.cache.entries ∧ CacheEntries.lastHit entries b =
        CacheEntries.lastHit p.1.cache.entries b) → k ∈ entries.insert key e →
      CacheEntries.lastHit (entries.insert key e) k = a.now ∨ k ∈ p.1.cache.entries ∧
        CacheEntries.lastHit (entries.insert key e) k =
          CacheEntries.lastHit p.1.cache.entries k := by
    intro entries key e he hold hmem
    by_cases hkey : k = key
    · left
      rw [hkey, Holds.lastHit_insert, he]
    · right
      have hin := ((AList.mem_insert entries).mp hmem).resolve_left hkey
      rw [Holds.lastHit_insert_ne hkey]
      exact hold k hin
  have hsame : ∀ b ∈ p.1.cache.entries, b ∈ p.1.cache.entries ∧
      CacheEntries.lastHit p.1.cache.entries b = CacheEntries.lastHit p.1.cache.entries b :=
    fun b hb => ⟨hb, rfl⟩
  unfold sideBySide Cached.step at hk ⊢
  cases hcall : a.call with
  | get key =>
      simp only [hcall, IntentKvCache.get] at hk ⊢
      split at hk
      · exact .inr (hsame k hk)
      · split_ifs at hk with hstale
        · simp only [hstale, if_true]
          exact .inr (stay_erase key k hk)
        · simp only [hstale]
          exact hinsert _ key _ rfl hsame hk
  | insert key schema =>
      simp only [hcall, IntentKvCache.insert] at hk ⊢
      split_ifs at hk ⊢ with hlow
      · exact .inr (hsame k hk)
      · refine hinsert _ key _ rfl ?_ hk
        unfold IntentKvCache.makeRoom IntentKvCache.evictLru
        split_ifs
        · split
          · exact stay_erase _
          · exact hsame
        · exact hsame
  | invalidateDomain domain =>
      simp only [hcall, IntentKvCache.invalidateDomain] at hk ⊢
      obtain ⟨e, he⟩ := Option.isSome_iff_exists.mp (AList.lookup_isSome.mpr hk)
      obtain ⟨hold, -⟩ := AList.mem_lookup_retain.mp he
      refine .inr ⟨AList.lookup_isSome.mp (Option.isSome_iff_exists.mpr ⟨e, hold⟩), ?_⟩
      rw [CacheEntries.lastHit, CacheEntries.lastHit, he, Option.mem_def.mp hold]
  | invalidateAll =>
      simp only [hcall, IntentKvCache.invalidateAll] at hk
      exact absurd hk (AList.notMem_empty _)

end Steps

/-! ## Whole runs -/

/-- With times that increase, every call is later than every hit. -/
theorem along_later {calls : List TimedCall} (hincreasing : calls.Pairwise (·.now < ·.now))
    {p : Cached × Expected} (h : ∀ a ∈ calls, Later p a) : Run.Along sideBySide Later p calls := by
  induction calls generalizing p with
  | nil => trivial
  | cons a calls ih =>
      obtain ⟨hfirst, hrest⟩ := List.pairwise_cons.mp hincreasing
      refine ⟨h a List.mem_cons_self, ih hrest fun b hb k hk => ?_⟩
      rcases lastHit_step hk with hnow | ⟨hold, hsame⟩
      · rw [hnow]
        exact hfirst b hb
      · rw [hsame]
        exact h b (List.mem_cons_of_mem _ hb) k hold

theorem refines_bothEmpty : Refines bothEmpty := ⟨.nil, Nat.zero_le _, rfl, rfl⟩

/-- In a run at increasing times, the cache is a bounded map that forgets the least recently
used, with every `get` counted, exactly as long as each `get` finds its key and no `insert`
overwrites in a full cache, but for the entry hit longest ago. -/
theorem refines_iff (calls : List TimedCall) (hincreasing : calls.Pairwise (·.now < ·.now)) :
    Run.Throughout sideBySide Refines bothEmpty calls ↔
      Run.Along sideBySide Met bothEmpty calls := by
  refine Run.throughout_iff sideBySide (I := Refines) (D := Later) (fun _ h => h)
    (fun _ _ h hlater => refines_step_iff h hlater)
    (fun _ _ h hlater hmet => (refines_step_iff h hlater).mpr hmet) refines_bothEmpty ?_
  refine along_later hincreasing fun a _ k hk => ?_
  exact absurd hk (AList.notMem_empty _)

def openNotes : IntentSchema where
  intentId := .nil
  rawInput := "open my notes"
  goal := "open_file"
  domain := none
  confidence := 0.9
  ambiguityScore := 0.1
  riskEstimate := 0.1
  requiredContext := []
  candidateActions := []
  disambiguationRequired := false
  disambiguationQuestion := none
  sessionContext := ⟨none, [], "12:00", none⟩
  halPreScore := 0.1
  escalateToCloud := false
  source := none

/-- What is inserted is found again. -/
theorem refines_iff_found : Run.Throughout sideBySide Refines bothEmpty
    [⟨.insert 7 openNotes, 1, .listed _⟩, ⟨.get 7, 2, .listed _⟩] := by
  refine (refines_iff _ (by simp)).mpr ⟨.inr (.inl (AList.notMem_empty _)), ?_, trivial⟩
  have hconfident : ¬ openNotes.confidence < minConfidenceToCache := by decide +kernel
  show (7 : UInt64) ∈ (IntentKvCache.new.insert (.listed _) 1 7 openNotes).entries
  rw [IntentKvCache.insert, if_neg hconfident]
  exact (AList.mem_insert _).mpr (.inl rfl)

/-- A miss that is not counted. -/
theorem not_refines : ¬ ∀ calls : List TimedCall, calls.Pairwise (·.now < ·.now) →
    Run.Throughout sideBySide Refines bothEmpty calls := by
  intro h
  have hafter := h [⟨.get 0, 1, .listed _⟩] (List.pairwise_singleton _ _) _ (List.prefix_refl _)
  exact not_refines_get refines_bothEmpty (AList.notMem_empty _) rfl hafter

end IntentEngine

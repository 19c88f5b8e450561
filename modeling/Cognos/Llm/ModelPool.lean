/-
# `Cognos.Llm.ModelPool` — the pool of resident models

`model_pool.rs`: models are loaded into a pool of a capacity, with a count of the handles that are
out on each and the time it was last handed out.  An eviction unloads idle models, those first that
were not used the longest, until enough is free.

    Accounted          what the bytes and the counts have to be
    Correct            what a call does: a failed one nothing, an eviction what it promises
    inv_step           a call keeps the accounts, and the counts of handles
    correct_of_inv     and is correct by them
    pool_accounting    in every run whose releases are paired with acquires, all calls are

Sizes fit in a `u64` because the capacity does.  A handle is kept until it is released, and a
process that held 2^63 of them would be aborted, so counts do not wrap.  A map is gone through in
any order.
-/
import Mathlib
import Cognos.Lib.Run

namespace Llm

abbrev ModelId := String

/-- Errors returned by pool operations. -/
inductive PoolError
  | notFound (id : ModelId)
  | oom (needed free : Nat)
  | stillReferenced (outstanding : Nat)
  | loadFailed (e : String)
deriving DecidableEq

/-- A resident, reference-counted model. -/
structure LoadedModel where
  path : String
  sizeBytes : Nat
  refcount : Nat
  lastUsed : Int

namespace LoadedModel

def isIdle (m : LoadedModel) : Bool := m.refcount = 0

/-- Bump the refcount and refresh the time. -/
def acquireRef (m : LoadedModel) (now : Int) : LoadedModel :=
  { m with refcount := m.refcount + 1, lastUsed := now }

/-- Decrement the refcount, saturating at zero. -/
def releaseRef (m : LoadedModel) : LoadedModel := { m with refcount := m.refcount - 1 }

end LoadedModel

/-- Resident models by id. -/
abbrev Models := AList fun _ : ModelId => LoadedModel

structure ModelPool where
  models : Models
  capacityBytes : Nat
  usedBytes : Nat

/-- An idle model, when it was last used, and its size. -/
structure Candidate where
  id : ModelId
  lastUsed : Int
  sizeBytes : Nat

/-- The order a `HashMap` gives its entries in. -/
structure Iteration where
  order : List Candidate → List Candidate
  perm : ∀ cs, (order cs).Perm cs

/-- `usize::saturating_add`. -/
def satAdd (a b : Nat) : Nat := min (a + b) (2 ^ 64 - 1)

namespace ModelPool

def new (capacityBytes : UInt64) : ModelPool := ⟨∅, capacityBytes.toNat, 0⟩

variable (p : ModelPool)

def freeBytes : Nat := p.capacityBytes - p.usedBytes

/-- Load a path into the pool: what the file system says of its size, and what the loader says. -/
def load (id : ModelId) (path : String) (metadata : Option Nat) (loader : Except String Unit)
    (now : Int) : Except PoolError Unit × ModelPool :=
  if id ∈ p.models then (.ok (), p)
  else
    let sizeBytes := metadata.getD 0
    if p.freeBytes < sizeBytes then (.error (.oom sizeBytes p.freeBytes), p)
    else
      match loader with
      | .error e => (.error (.loadFailed e), p)
      | .ok () =>
          (.ok (), { p with
            models := p.models.insert id ⟨path, sizeBytes, 0, now⟩
            usedBytes := p.usedBytes + sizeBytes })

/-- Unload a model from the pool. -/
def unload (id : ModelId) : Except PoolError Unit × ModelPool :=
  match p.models.lookup id with
  | none => (.error (.notFound id), p)
  | some m =>
      if 0 < m.refcount then (.error (.stillReferenced m.refcount), p)
      else (.ok (), { p with
        models := p.models.erase id
        usedBytes := p.usedBytes - m.sizeBytes })

/-- Acquire a handle to a resident model. -/
def acquire (id : ModelId) (now : Int) : Except PoolError Unit × ModelPool :=
  match p.models.lookup id with
  | none => (.error (.notFound id), p)
  | some m => (.ok (), { p with models := p.models.insert id (m.acquireRef now) })

/-- Release a previously-acquired handle. -/
def release (id : ModelId) : ModelPool :=
  match p.models.lookup id with
  | none => p
  | some m => { p with models := p.models.insert id m.releaseRef }

/-- The idle models. -/
def idle : List Candidate :=
  p.models.entries.filterMap fun e =>
    if e.2.isIdle then some ⟨e.1, e.2.lastUsed, e.2.sizeBytes⟩ else none

/-- Evict these, until enough is free. -/
def evictFrom (target : Nat) : List Candidate → ModelPool → Nat →
    Except PoolError Nat × ModelPool
  | [], p, freed => (.ok freed, p)
  | c :: cs, p, freed =>
      if target ≤ p.freeBytes then (.ok freed, p)
      else
        match p.unload c.id with
        | (.ok (), p) => evictFrom target cs p (satAdd freed c.sizeBytes)
        | (.error (.stillReferenced _), p) => evictFrom target cs p freed
        | (.error e, p) => (.error e, p)

/-- The candidates, the least recently used first. -/
def candidates (it : Iteration) : List Candidate :=
  (it.order p.idle).insertionSort fun a b => a.lastUsed ≤ b.lastUsed

/-- Evict the least-recently-used idle models until enough is free. -/
def evictLru (it : Iteration) (target : Nat) : Except PoolError Nat × ModelPool :=
  evictFrom target (p.candidates it) p 0

end ModelPool

/-! ## Runs -/

inductive Op
  | load (id : ModelId) (path : String) (metadata : Option Nat) (loader : Except String Unit)
      (now : Int)
  | unload (id : ModelId)
  | acquire (id : ModelId) (now : Int)
  | release (id : ModelId)
  | evictLru (it : Iteration) (target : Nat)

/-- What an operation returns: the bytes freed, for an eviction. -/
def ModelPool.perform (p : ModelPool) : Op → Except PoolError Nat × ModelPool
  | .load id path metadata loader now =>
      ((p.load id path metadata loader now).1.map fun _ => 0,
        (p.load id path metadata loader now).2)
  | .unload id => ((p.unload id).1.map fun _ => 0, (p.unload id).2)
  | .acquire id now => ((p.acquire id now).1.map fun _ => 0, (p.acquire id now).2)
  | .release id => (.ok 0, p.release id)
  | .evictLru it target => p.evictLru it target

/-- A pool, how many handles are out on each model, and when it was last loaded or handed out. -/
structure Shared where
  pool : ModelPool
  outstanding : ModelId → Nat
  usedAt : ModelId → Int

namespace Shared

def start (capacityBytes : UInt64) : Shared := ⟨.new capacityBytes, fun _ => 0, fun _ => 0⟩

/-- The handles that are out after an operation. -/
def handles (s : Shared) (op : Op) : ModelId → Nat :=
  match op with
  | .acquire id _ =>
      if id ∈ s.pool.models then
        Function.update s.outstanding id (s.outstanding id + 1)
      else s.outstanding
  | .release id => Function.update s.outstanding id (s.outstanding id - 1)
  | _ => s.outstanding

/-- When each model was last loaded or handed out, after an operation. -/
def uses (s : Shared) (op : Op) : ModelId → Int :=
  match op with
  | .load id path metadata loader now =>
      if id ∉ s.pool.models ∧ id ∈ (s.pool.load id path metadata loader now).2.models then
        Function.update s.usedAt id now
      else s.usedAt
  | .acquire id now =>
      if id ∈ s.pool.models then Function.update s.usedAt id now else s.usedAt
  | _ => s.usedAt

def step (s : Shared) (op : Op) : Shared := ⟨(s.pool.perform op).2, s.handles op, s.uses op⟩

/-- A release is of a handle that is out. -/
def Paired (s : Shared) : Op → Prop
  | .release id => 0 < s.outstanding id
  | _ => True

end Shared

/-- The sizes of the resident models. -/
def Models.totalBytes (models : Models) : Nat := (models.entries.map fun e => e.2.sizeBytes).sum

/-- The bytes used are those of the resident models, and no more than there is room for. -/
structure ModelPool.Accounted (p : ModelPool) : Prop where
  used_eq : p.usedBytes = p.models.totalBytes
  used_le : p.usedBytes ≤ p.capacityBytes

/-- The count of a resident model is that of its handles which are out. -/
def Shared.Counted (s : Shared) : Prop :=
  ∀ id m, s.pool.models.lookup id = some m → m.refcount = s.outstanding id

/-- An eviction took idle models, the least recently used first, no more of them than it had to,
and it returns the bytes they had. -/
structure Evicted (p : ModelPool) (target : Nat) (r : Except PoolError Nat × ModelPool) : Prop where
  taken : ∃ gone rest : List Candidate,
    (gone ++ rest).Perm p.idle ∧ (gone ++ rest).Pairwise (fun a b => a.lastUsed ≤ b.lastUsed) ∧
    (∀ id, r.2.models.lookup id =
      if id ∈ gone.map Candidate.id then none else p.models.lookup id) ∧
    r.1 = .ok (gone.map Candidate.sizeBytes).sum ∧
    r.2.freeBytes = p.freeBytes + (gone.map Candidate.sizeBytes).sum ∧
    (∀ early, early <+: gone → early ≠ gone →
      p.freeBytes + (early.map Candidate.sizeBytes).sum < target) ∧
    (rest = [] ∨ target ≤ r.2.freeBytes)

/-- What an operation does. -/
structure Correct (s : Shared) (op : Op) : Prop where
  stamped : ∀ c ∈ s.pool.idle, c.lastUsed = s.usedAt c.id
  kept : ∀ id, 0 < s.outstanding id → id ∈ (s.step op).pool.models
  unchanged : ∀ e, (s.pool.perform op).1 = .error e → (s.step op).pool = s.pool
  evicted : ∀ it target, op = .evictLru it target → Evicted s.pool target (s.pool.perform op)

/-! ## Sizes -/

namespace Models

theorem totalBytes_erase {models : Models} {id : ModelId} {m : LoadedModel}
    (h : models.lookup id = some m) :
    models.totalBytes = m.sizeBytes + totalBytes (models.erase id) := by
  have hmem : id ∈ models.entries.keys :=
    AList.mem_keys.mpr (AList.lookup_isSome.mp (by rw [h]; rfl))
  obtain ⟨m', before, behind, hnot, hentries, herase⟩ := List.exists_of_kerase hmem
  have hm : m' = m := by
    have hlookup : m' ∈ models.lookup id := by
      rw [AList.mem_lookup_iff, hentries]
      exact List.mem_append_right _ List.mem_cons_self
    rw [h] at hlookup
    exact (Option.some.inj hlookup).symm
  have hrest : (models.erase id).entries = before ++ behind := herase
  rw [totalBytes, totalBytes, hrest, hentries, hm]
  simp only [List.map_append, List.map_cons, List.sum_append, List.sum_cons]
  omega

theorem totalBytes_insert (models : Models) (id : ModelId) (m : LoadedModel) :
    totalBytes (models.insert id m) = m.sizeBytes + totalBytes (models.erase id) := by
  rw [totalBytes, totalBytes, AList.entries_insert]
  rfl

/-- A model that is not resident. -/
theorem totalBytes_insert_new {models : Models} {id : ModelId} (h : id ∉ models)
    (m : LoadedModel) : totalBytes (models.insert id m) = m.sizeBytes + models.totalBytes := by
  have hsame : models.erase id = models := AList.ext (List.kerase_of_notMem_keys h)
  rw [totalBytes_insert, hsame]

/-- A model in the place of one of its size. -/
theorem totalBytes_insert_same {models : Models} {id : ModelId} {m m' : LoadedModel}
    (h : models.lookup id = some m) (hsize : m'.sizeBytes = m.sizeBytes) :
    totalBytes (models.insert id m') = models.totalBytes := by
  rw [totalBytes_insert, totalBytes_erase h, hsize]

end Models

/-! ## Evictions -/

namespace ModelPool

/-- A candidate is a resident model that is idle. -/
def IsCandidate (p : ModelPool) (c : Candidate) : Prop :=
  ∃ m, p.models.lookup c.id = some m ∧ m.refcount = 0 ∧ m.sizeBytes = c.sizeBytes

theorem isCandidate_of_mem_idle {p : ModelPool} {c : Candidate} (h : c ∈ p.idle) :
    p.IsCandidate c := by
  obtain ⟨⟨id, m⟩, hmem, hc⟩ := List.mem_filterMap.mp h
  rw [Option.ite_none_right_eq_some] at hc
  obtain ⟨hidle, hc⟩ := hc
  obtain rfl := Option.some.inj hc
  exact ⟨m, AList.mem_lookup_iff.mpr hmem, of_decide_eq_true hidle, rfl⟩

theorem lastUsed_of_mem_idle {p : ModelPool} {c : Candidate} (h : c ∈ p.idle) :
    ∃ m, p.models.lookup c.id = some m ∧ m.lastUsed = c.lastUsed := by
  obtain ⟨⟨id, m⟩, hmem, hc⟩ := List.mem_filterMap.mp h
  rw [Option.ite_none_right_eq_some] at hc
  obtain rfl := Option.some.inj hc.2
  exact ⟨m, AList.mem_lookup_iff.mpr hmem, rfl⟩

theorem nodup_idle (p : ModelPool) : (p.idle.map Candidate.id).Nodup := by
  have hsub : (p.idle.map Candidate.id).Sublist p.models.entries.keys := by
    rw [idle]
    generalize p.models.entries = es
    induction es with
    | nil => exact .slnil
    | cons e es ih =>
        rw [List.filterMap_cons]
        split
        · exact .cons _ ih
        · next c hc =>
            rw [Option.ite_none_right_eq_some] at hc
            obtain rfl := Option.some.inj hc.2
            exact .cons_cons _ ih
  exact List.Nodup.sublist hsub p.models.nodupKeys

theorem perm_candidates (p : ModelPool) (it : Iteration) : (p.candidates it).Perm p.idle :=
  (List.perm_insertionSort _ _).trans (it.perm _)

/-- What an idle model leaves when it is unloaded. -/
theorem unload_candidate {p : ModelPool} {c : Candidate} (h : p.IsCandidate c) :
    p.unload c.id = (.ok (), { p with
      models := p.models.erase c.id
      usedBytes := p.usedBytes - c.sizeBytes }) := by
  obtain ⟨m, hm, hidle, hsize⟩ := h
  rw [unload, hm]
  dsimp only
  rw [if_neg (by omega), hsize]

theorem Accounted.size_le {p : ModelPool} (h : p.Accounted) {id : ModelId} {m : LoadedModel}
    (hm : p.models.lookup id = some m) : m.sizeBytes ≤ p.usedBytes := by
  rw [h.used_eq, Models.totalBytes_erase hm]
  exact Nat.le_add_right _ _

theorem Accounted.erase {p : ModelPool} (h : p.Accounted) {id : ModelId} {m : LoadedModel}
    (hm : p.models.lookup id = some m) :
    ({ p with
      models := p.models.erase id
      usedBytes := p.usedBytes - m.sizeBytes } : ModelPool).Accounted where
  used_eq := by
    dsimp only
    rw [h.used_eq, Models.totalBytes_erase hm, Nat.add_sub_cancel_left]
  used_le := (Nat.sub_le _ _).trans h.used_le

/-- What the loop of an eviction takes, and what it leaves. -/
structure Loop (target : Nat) (cs : List Candidate) (p : ModelPool) (freed : Nat)
    (gone rest : List Candidate) (r : Except PoolError Nat × ModelPool) : Prop where
  split : gone ++ rest = cs
  lookup_eq : ∀ id, r.2.models.lookup id =
    if id ∈ gone.map Candidate.id then none else p.models.lookup id
  returned : r.1 = .ok (freed + (gone.map Candidate.sizeBytes).sum)
  used_add : r.2.usedBytes + (gone.map Candidate.sizeBytes).sum = p.usedBytes
  capacity_eq : r.2.capacityBytes = p.capacityBytes
  accounted : r.2.Accounted
  needed : ∀ early, early <+: gone → early ≠ gone →
    p.freeBytes + (early.map Candidate.sizeBytes).sum < target
  enough : rest = [] ∨ target ≤ r.2.freeBytes

/-- Nothing is taken. -/
theorem loop_stop {target : Nat} {cs : List Candidate} {p : ModelPool} (h : p.Accounted)
    (freed : Nat) (henough : cs = [] ∨ target ≤ p.freeBytes) :
    Loop target cs p freed [] cs (.ok freed, p) where
  split := rfl
  lookup_eq := fun _ => rfl
  returned := rfl
  used_add := rfl
  capacity_eq := rfl
  accounted := h
  needed := by
    intro early hearly hne
    exact absurd (List.prefix_nil.mp hearly) hne
  enough := henough

/-- The first candidate is taken. -/
theorem Loop.cons {target : Nat} {c : Candidate} {cs gone rest : List Candidate} {p : ModelPool}
    {freed : Nat} {r : Except PoolError Nat × ModelPool} (hp : p.Accounted) (hc : p.IsCandidate c)
    (hmore : p.freeBytes < target)
    (h : Loop target cs { p with
      models := p.models.erase c.id
      usedBytes := p.usedBytes - c.sizeBytes } (freed + c.sizeBytes) gone rest r) :
    Loop target (c :: cs) p freed (c :: gone) rest r where
  split := by rw [List.cons_append, h.split]
  lookup_eq := by
    intro id
    rw [h.lookup_eq, List.map_cons]
    rcases eq_or_ne id c.id with rfl | hne
    · rw [AList.lookup_erase, ite_self, if_pos List.mem_cons_self]
    · rw [AList.lookup_erase_ne hne]
      simp only [List.mem_cons, hne, false_or]
  returned := by
    rw [h.returned, List.map_cons, List.sum_cons, Nat.add_assoc]
  used_add := by
    obtain ⟨m, hm, -, hsize⟩ := hc
    have hle := hp.size_le hm
    have hrest := h.used_add
    dsimp only at hrest
    rw [List.map_cons, List.sum_cons]
    omega
  capacity_eq := h.capacity_eq
  accounted := h.accounted
  needed := by
    obtain ⟨m, hm, -, hsize⟩ := hc
    have hle := hp.size_le hm
    intro early hearly hne
    cases early with
    | nil => simpa using hmore
    | cons d early =>
        obtain ⟨rfl, hprefix⟩ := List.cons_prefix_cons.mp hearly
        have hlt := h.needed early hprefix (fun heq => hne (by rw [heq]))
        have hcap := hp.used_le
        rw [freeBytes] at hlt ⊢
        dsimp only at hlt
        rw [List.map_cons, List.sum_cons]
        omega
  enough := h.enough

/-- The loop goes over candidates that are idle, and takes the first of them it needs. -/
theorem evictFrom_loop (target : Nat) {cs : List Candidate} {p : ModelPool} (freed : Nat)
    (hp : p.Accounted) (hcs : ∀ c ∈ cs, p.IsCandidate c) (hnodup : (cs.map Candidate.id).Nodup)
    (hfreed : freed + p.usedBytes < 2 ^ 64) :
    ∃ gone rest, Loop target cs p freed gone rest (evictFrom target cs p freed) := by
  induction cs generalizing p freed with
  | nil => exact ⟨[], [], loop_stop hp freed (Or.inl rfl)⟩
  | cons c cs ih =>
      obtain ⟨hc, hrest⟩ := List.forall_mem_cons.mp hcs
      obtain ⟨hnot, hnodup⟩ := List.nodup_cons.mp hnodup
      rw [evictFrom]
      split
      · next henough => exact ⟨[], c :: cs, loop_stop hp freed (Or.inr henough)⟩
      · next hmore =>
          have hcandidates : ∀ d ∈ cs, ({ p with
              models := p.models.erase c.id
              usedBytes := p.usedBytes - c.sizeBytes } : ModelPool).IsCandidate d := by
            intro d hd
            obtain ⟨m, hm, hidle⟩ := hrest d hd
            have hne : d.id ≠ c.id := fun heq => hnot (heq ▸ List.mem_map_of_mem hd)
            exact ⟨m, (AList.lookup_erase_ne hne).trans hm, hidle⟩
          obtain ⟨m, hm, hidle, hsize⟩ := hc
          have hle := hp.size_le hm
          have hadd : satAdd freed c.sizeBytes = freed + c.sizeBytes := by
            rw [satAdd]
            omega
          rw [unload_candidate ⟨m, hm, hidle, hsize⟩]
          dsimp only
          rw [hadd]
          have haccounted := hp.erase hm
          rw [hsize] at haccounted
          have hbound : freed + c.sizeBytes + (p.usedBytes - c.sizeBytes) < 2 ^ 64 := by omega
          obtain ⟨gone, rest, hloop⟩ :=
            ih (freed + c.sizeBytes) haccounted hcandidates hnodup hbound
          exact ⟨c :: gone, rest, hloop.cons hp ⟨m, hm, hidle, hsize⟩ (Nat.lt_of_not_le hmore)⟩

/-- An eviction keeps its promise. -/
theorem evicted_of_accounted {p : ModelPool} (hp : p.Accounted) (hcap : p.capacityBytes < 2 ^ 64)
    (it : Iteration) (target : Nat) :
    Evicted p target (p.evictLru it target) ∧ (p.evictLru it target).2.Accounted ∧
      (p.evictLru it target).2.capacityBytes = p.capacityBytes := by
  have hperm := p.perm_candidates it
  have hcs : ∀ c ∈ p.candidates it, p.IsCandidate c :=
    fun c hc => isCandidate_of_mem_idle (hperm.mem_iff.mp hc)
  have hnodup : ((p.candidates it).map Candidate.id).Nodup :=
    (hperm.map Candidate.id).nodup_iff.mpr p.nodup_idle
  have hle := hp.used_le
  obtain ⟨gone, rest, h⟩ := evictFrom_loop target 0 hp hcs hnodup (by omega)
  refine ⟨⟨gone, rest, ?_, ?_, h.lookup_eq, ?_, ?_, h.needed, h.enough⟩, h.accounted,
    h.capacity_eq⟩
  · rw [h.split]
    exact hperm
  · rw [h.split]
    exact List.pairwise_insertionSort _ _
  · rw [← Nat.zero_add (gone.map Candidate.sizeBytes).sum]
    exact h.returned
  · have hused := h.used_add
    have hcapacity := h.capacity_eq
    rw [evictLru, freeBytes, freeBytes]
    omega

end ModelPool

/-! ## Accounts -/

namespace Shared

/-- What the operations keep: beside the bytes, the count of each resident model is that of its
handles and its stamp that of its last use, and no handle is out on a model that is not resident. -/
structure Inv (s : Shared) : Prop where
  accounted : s.pool.Accounted
  cap_lt : s.pool.capacityBytes < 2 ^ 64
  refcount_eq : s.Counted
  lastUsed_eq : ∀ id m, s.pool.models.lookup id = some m → m.lastUsed = s.usedAt id
  absent : ∀ id, s.pool.models.lookup id = none → s.outstanding id = 0

theorem inv_start (capacityBytes : UInt64) : Inv (start capacityBytes) where
  accounted := ⟨rfl, Nat.zero_le _⟩
  cap_lt := capacityBytes.toNat_lt
  refcount_eq := fun _ _ h => by cases h
  lastUsed_eq := fun _ _ h => by cases h
  absent := fun _ _ => rfl

end Shared

namespace ModelPool

variable (p : ModelPool) (id : ModelId)

/-- A load adds an idle model there is room for, or leaves the pool. -/
theorem load_cases (path : String) (metadata : Option Nat) (loader : Except String Unit)
    (now : Int) :
    (p.load id path metadata loader now).2 = p ∨
      (id ∉ p.models ∧ metadata.getD 0 ≤ p.freeBytes ∧
        p.load id path metadata loader now = (.ok (), { p with
          models := p.models.insert id ⟨path, metadata.getD 0, 0, now⟩
          usedBytes := p.usedBytes + metadata.getD 0 })) := by
  rw [load]
  split
  · exact Or.inl rfl
  · next hnew =>
      dsimp only
      split
      · exact Or.inl rfl
      · next hfree =>
          cases loader with
          | error e => exact Or.inl rfl
          | ok u => exact Or.inr ⟨hnew, Nat.le_of_not_lt hfree, rfl⟩

/-- An unload takes an idle model, or leaves the pool. -/
theorem unload_cases :
    (p.unload id).2 = p ∨
      ∃ m, p.models.lookup id = some m ∧ m.refcount = 0 ∧
        p.unload id = (.ok (), { p with
          models := p.models.erase id
          usedBytes := p.usedBytes - m.sizeBytes }) := by
  rw [unload]
  cases hm : p.models.lookup id with
  | none => exact Or.inl rfl
  | some m =>
      dsimp only
      split
      · exact Or.inl rfl
      · next hidle => exact Or.inr ⟨m, rfl, by omega, rfl⟩

/-- An acquisition is of a resident model, or leaves the pool. -/
theorem acquire_cases (now : Int) :
    (p.models.lookup id = none ∧ (p.acquire id now).2 = p) ∨
      ∃ m, p.models.lookup id = some m ∧ p.acquire id now = (.ok (), { p with
        models := p.models.insert id (m.acquireRef now) }) := by
  rw [acquire]
  cases hm : p.models.lookup id with
  | none => exact Or.inl ⟨rfl, rfl⟩
  | some m => exact Or.inr ⟨m, rfl, rfl⟩

end ModelPool

namespace Shared

variable {s : Shared}

theorem Inv.isSome (h : Inv s) {id : ModelId} (hout : 0 < s.outstanding id) :
    ∃ m, s.pool.models.lookup id = some m := by
  cases hm : s.pool.models.lookup id with
  | none =>
      have := h.absent id hm
      omega
  | some m => exact ⟨m, rfl⟩

/-- Another model of the same size under an id, with the handles that are out on it. -/
theorem Inv.replace (h : Inv s) {id : ModelId} {m m' : LoadedModel}
    (hm : s.pool.models.lookup id = some m) (hsize : m'.sizeBytes = m.sizeBytes) :
    Inv ⟨{ s.pool with models := s.pool.models.insert id m' },
      Function.update s.outstanding id m'.refcount,
      Function.update s.usedAt id m'.lastUsed⟩ where
  accounted := by
    refine ⟨?_, h.accounted.used_le⟩
    dsimp only
    rw [Models.totalBytes_insert_same hm hsize]
    exact h.accounted.used_eq
  cap_lt := h.cap_lt
  refcount_eq := by
    intro id' n hn
    dsimp only at hn ⊢
    rcases eq_or_ne id' id with rfl | hne
    · rw [AList.lookup_insert] at hn
      rw [Function.update_self, Option.some.inj hn]
    · rw [AList.lookup_insert_ne hne] at hn
      rw [Function.update_of_ne hne, h.refcount_eq id' n hn]
  lastUsed_eq := by
    intro id' n hn
    dsimp only at hn ⊢
    rcases eq_or_ne id' id with rfl | hne
    · rw [AList.lookup_insert] at hn
      rw [Function.update_self, Option.some.inj hn]
    · rw [AList.lookup_insert_ne hne] at hn
      rw [Function.update_of_ne hne, h.lastUsed_eq id' n hn]
  absent := by
    intro id' hn
    dsimp only at hn ⊢
    rcases eq_or_ne id' id with rfl | hne
    · rw [AList.lookup_insert] at hn
      cases hn
    · rw [AList.lookup_insert_ne hne] at hn
      rw [Function.update_of_ne hne, h.absent id' hn]

/-- An operation that leaves the pool, the handles and the uses. -/
theorem step_eq_self (op : Op) (hpool : (s.pool.perform op).2 = s.pool)
    (hhandles : s.handles op = s.outstanding) (huses : s.uses op = s.usedAt) : s.step op = s := by
  rw [step, hpool, hhandles, huses]

theorem inv_load (h : Inv s) (id : ModelId) (path : String) (metadata : Option Nat)
    (loader : Except String Unit) (now : Int) :
    Inv (s.step (.load id path metadata loader now)) := by
  rcases s.pool.load_cases id path metadata loader now with hsame | ⟨hnew, hfree, hload⟩
  · have hstep : s.step (.load id path metadata loader now) = s := by
      refine step_eq_self _ hsame rfl ?_
      rw [uses, hsame]
      exact if_neg fun hboth => hboth.1 hboth.2
    rw [hstep]
    exact h
  · have hmem : id ∈ (s.pool.load id path metadata loader now).2.models := by
      rw [hload]
      exact (AList.mem_insert _).mpr (Or.inl rfl)
    have hstep : s.step (.load id path metadata loader now) =
        ⟨{ s.pool with
          models := s.pool.models.insert id ⟨path, metadata.getD 0, 0, now⟩
          usedBytes := s.pool.usedBytes + metadata.getD 0 }, s.outstanding,
          Function.update s.usedAt id now⟩ := by
      rw [step, uses, if_pos ⟨hnew, hmem⟩, ModelPool.perform, hload]
      rfl
    have hnone : s.pool.models.lookup id = none := AList.lookup_eq_none.mpr hnew
    rw [hstep]
    refine ⟨⟨?_, ?_⟩, h.cap_lt, fun id' m hm => ?_, fun id' m hm => ?_, fun id' hm => ?_⟩
    · dsimp only
      rw [Models.totalBytes_insert_new hnew, h.accounted.used_eq, Nat.add_comm]
    · have hle := h.accounted.used_le
      rw [ModelPool.freeBytes] at hfree
      dsimp only
      omega
    · dsimp only at hm ⊢
      rcases eq_or_ne id' id with rfl | hne
      · rw [AList.lookup_insert] at hm
        rw [← Option.some.inj hm, h.absent id' hnone]
      · rw [AList.lookup_insert_ne hne] at hm
        exact h.refcount_eq id' m hm
    · dsimp only at hm ⊢
      rcases eq_or_ne id' id with rfl | hne
      · rw [AList.lookup_insert] at hm
        rw [Function.update_self, ← Option.some.inj hm]
      · rw [AList.lookup_insert_ne hne] at hm
        rw [Function.update_of_ne hne, h.lastUsed_eq id' m hm]
    · dsimp only at hm ⊢
      rcases eq_or_ne id' id with rfl | hne
      · exact h.absent id' hnone
      · rw [AList.lookup_insert_ne hne] at hm
        exact h.absent id' hm

theorem inv_unload (h : Inv s) (id : ModelId) : Inv (s.step (.unload id)) := by
  rcases s.pool.unload_cases id with hsame | ⟨m, hm, hidle, hunload⟩
  · rw [step_eq_self (.unload id) hsame rfl rfl]
    exact h
  · have hstep : s.step (.unload id) =
        ⟨{ s.pool with
          models := s.pool.models.erase id
          usedBytes := s.pool.usedBytes - m.sizeBytes }, s.outstanding, s.usedAt⟩ := by
      rw [step, ModelPool.perform, hunload]
      rfl
    have hother : ∀ id' n, (s.pool.models.erase id).lookup id' = some n →
        s.pool.models.lookup id' = some n := by
      intro id' n hn
      rcases eq_or_ne id' id with rfl | hne
      · rw [AList.lookup_erase] at hn
        cases hn
      · rwa [AList.lookup_erase_ne hne] at hn
    rw [hstep]
    refine ⟨h.accounted.erase hm, h.cap_lt, fun id' n hn => h.refcount_eq id' n (hother id' n hn),
      fun id' n hn => h.lastUsed_eq id' n (hother id' n hn), fun id' hn => ?_⟩
    dsimp only at hn ⊢
    rcases eq_or_ne id' id with rfl | hne
    · rw [← h.refcount_eq id' m hm, hidle]
    · rw [AList.lookup_erase_ne hne] at hn
      exact h.absent id' hn

theorem inv_acquire (h : Inv s) (id : ModelId) (now : Int) : Inv (s.step (.acquire id now)) := by
  rcases s.pool.acquire_cases id now with ⟨hnone, hsame⟩ | ⟨m, hm, hacquire⟩
  · have hnot : id ∉ s.pool.models := AList.lookup_eq_none.mp hnone
    rw [step_eq_self (.acquire id now) hsame (if_neg hnot) (if_neg hnot)]
    exact h
  · have hmem : id ∈ s.pool.models := AList.lookup_isSome.mp (by rw [hm]; rfl)
    have hstep : s.step (.acquire id now) =
        ⟨{ s.pool with models := s.pool.models.insert id (m.acquireRef now) },
          Function.update s.outstanding id (m.acquireRef now).refcount,
          Function.update s.usedAt id (m.acquireRef now).lastUsed⟩ := by
      rw [step, handles, uses, if_pos hmem, if_pos hmem, ModelPool.perform, hacquire,
        ← h.refcount_eq id m hm]
      rfl
    rw [hstep]
    exact h.replace hm rfl

theorem inv_release (h : Inv s) (id : ModelId) (hpaired : 0 < s.outstanding id) :
    Inv (s.step (.release id)) := by
  obtain ⟨m, hm⟩ := h.isSome hpaired
  have hstep : s.step (.release id) =
      ⟨{ s.pool with models := s.pool.models.insert id m.releaseRef },
        Function.update s.outstanding id m.releaseRef.refcount,
        Function.update s.usedAt id m.releaseRef.lastUsed⟩ := by
    have hstamp : Function.update s.usedAt id m.releaseRef.lastUsed = s.usedAt :=
      Function.update_eq_self_iff.mpr (h.lastUsed_eq id m hm)
    rw [hstamp, step, handles, ModelPool.perform, ModelPool.release, hm, ← h.refcount_eq id m hm]
    rfl
  rw [hstep]
  exact h.replace hm rfl

/-- No handle is out on a candidate. -/
theorem Inv.outstanding_candidate (h : Inv s) {c : Candidate} (hc : c ∈ s.pool.idle) :
    s.outstanding c.id = 0 := by
  obtain ⟨m, hm, hidle, -⟩ := ModelPool.isCandidate_of_mem_idle hc
  rw [← h.refcount_eq c.id m hm, hidle]

theorem inv_evictLru (h : Inv s) (it : Iteration) (target : Nat) :
    Inv (s.step (.evictLru it target)) := by
  obtain ⟨⟨gone, rest, hperm, -, hlookup, -⟩, haccounted, hcapacity⟩ :=
    ModelPool.evicted_of_accounted h.accounted h.cap_lt it target
  have hother : ∀ id m, (s.pool.evictLru it target).2.models.lookup id = some m →
      s.pool.models.lookup id = some m := by
    intro id m hm
    have hlook := (hlookup id).symm.trans hm
    split at hlook
    · cases hlook
    · exact hlook
  refine ⟨haccounted, hcapacity.trans_lt h.cap_lt,
    fun id m hm => h.refcount_eq id m (hother id m hm),
    fun id m hm => h.lastUsed_eq id m (hother id m hm), fun id hm => ?_⟩
  · have hlook := (hlookup id).symm.trans hm
    split at hlook
    · next hgone =>
        obtain ⟨c, hc, rfl⟩ := List.mem_map.mp hgone
        exact h.outstanding_candidate (hperm.mem_iff.mp (List.mem_append_left _ hc))
    · exact h.absent id hlook

theorem inv_step (h : Inv s) {op : Op} (hop : Paired s op) : Inv (s.step op) := by
  cases op with
  | load id path metadata loader now => exact inv_load h id path metadata loader now
  | unload id => exact inv_unload h id
  | acquire id now => exact inv_acquire h id now
  | release id => exact inv_release h id hop
  | evictLru it target => exact inv_evictLru h it target

/-! ## Correctness -/

/-- A model with a handle out on it stays. -/
theorem kept_of_inv (h : Inv s) {op : Op} (hop : Paired s op) {id : ModelId}
    (hout : 0 < s.outstanding id) : id ∈ (s.step op).pool.models := by
  have hafter : 0 < (s.step op).outstanding id → id ∈ (s.step op).pool.models := by
    intro hpos
    obtain ⟨m, hm⟩ := (inv_step h hop).isSome hpos
    exact AList.lookup_isSome.mp (by rw [hm]; rfl)
  cases op with
  | load id' path metadata loader now => exact hafter hout
  | unload id' => exact hafter hout
  | evictLru it target => exact hafter hout
  | acquire id' now =>
      refine hafter ?_
      show 0 < s.handles (.acquire id' now) id
      rw [handles]
      split
      · rcases eq_or_ne id id' with rfl | hne
        · rw [Function.update_self]
          exact Nat.succ_pos _
        · rw [Function.update_of_ne hne]
          exact hout
      · exact hout
  | release id' =>
      obtain ⟨m, hm⟩ := h.isSome hout
      obtain ⟨m', hm'⟩ := h.isSome hop
      rw [step, ModelPool.perform, ModelPool.release, hm']
      exact (AList.mem_insert _).mpr (Or.inr (AList.lookup_isSome.mp (by rw [hm]; rfl)))

/-- A failed operation changes nothing. -/
theorem unchanged_of_inv (h : Inv s) (op : Op) {e : PoolError}
    (he : (s.pool.perform op).1 = .error e) : (s.step op).pool = s.pool := by
  cases op with
  | load id path metadata loader now =>
      rcases s.pool.load_cases id path metadata loader now with hsame | ⟨-, -, hload⟩
      · exact hsame
      · rw [ModelPool.perform, hload] at he
        cases he
  | unload id =>
      rcases s.pool.unload_cases id with hsame | ⟨m, -, -, hunload⟩
      · exact hsame
      · rw [ModelPool.perform, hunload] at he
        cases he
  | acquire id now =>
      rcases s.pool.acquire_cases id now with ⟨-, hsame⟩ | ⟨m, -, hacquire⟩
      · exact hsame
      · rw [ModelPool.perform, hacquire] at he
        cases he
  | release id => cases he
  | evictLru it target =>
      obtain ⟨⟨gone, rest, -, -, -, hreturned, -⟩, -⟩ :=
        ModelPool.evicted_of_accounted h.accounted h.cap_lt it target
      rw [ModelPool.perform, hreturned] at he
      cases he

theorem correct_of_inv (h : Inv s) {op : Op} (hop : Paired s op) : Correct s op where
  stamped := by
    intro c hc
    obtain ⟨m, hm, hstamp⟩ := ModelPool.lastUsed_of_mem_idle hc
    rw [← hstamp]
    exact h.lastUsed_eq c.id m hm
  kept := fun _ hout => kept_of_inv h hop hout
  unchanged := fun _ he => unchanged_of_inv h op he
  evicted := by
    rintro it target rfl
    exact (ModelPool.evicted_of_accounted h.accounted h.cap_lt it target).1

end Shared

/-- In every run whose releases are paired with acquires, the bytes used are those of the resident
models and within the capacity throughout, the models are counted by their handles, and every
operation is correct. -/
theorem pool_accounting (capacityBytes : UInt64) (ops : List Op)
    (hpaired : Run.Along Shared.step Shared.Paired (Shared.start capacityBytes) ops) :
    Run.Throughout Shared.step (fun s => s.pool.Accounted ∧ s.Counted)
        (Shared.start capacityBytes) ops ∧
      Run.Along Shared.step Correct (Shared.start capacityBytes) ops := by
  have hstart := Shared.inv_start capacityBytes
  refine ⟨?_, ?_⟩
  · rintro past ⟨rest, rfl⟩
    have hpast := ((Run.along_append _ _ _ _ _).mp hpaired).1
    have hafter := Run.invariant Shared.step (I := Shared.Inv)
      (fun _ _ h hop => Shared.inv_step h hop) hstart hpast
    exact ⟨hafter.accounted, hafter.refcount_eq⟩
  · exact Run.along_of_invariant Shared.step (I := Shared.Inv)
      (fun _ _ h hop => Shared.inv_step h hop) (fun _ _ h hop => Shared.correct_of_inv h hop)
      hstart hpaired

/-- A map gone through in its order. -/
def Iteration.asIs : Iteration := ⟨id, fun cs => List.Perm.refl cs⟩

/-- Two models in a pool of ten bytes; one is handed out and given back, and both have to go. -/
def sampleOps : List Op :=
  [.load "a" "a.gguf" (some 4) (.ok ()) 0, .load "b" "b.gguf" (some 5) (.ok ()) 1,
    .acquire "a" 2, .evictLru .asIs 9, .release "a", .evictLru .asIs 10]

theorem pool_accounting_sample :
    Run.Throughout Shared.step (fun s => s.pool.Accounted ∧ s.Counted) (Shared.start 10)
        sampleOps ∧
      Run.Along Shared.step Correct (Shared.start 10) sampleOps := by
  refine pool_accounting 10 sampleOps ?_
  refine ⟨trivial, trivial, trivial, trivial, ?_, trivial, trivial⟩
  show 0 < Shared.outstanding _ "a"
  decide +kernel

end Llm

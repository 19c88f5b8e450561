/-
# `Cognos.Hal.AuthorityCompressor` — cached verdicts

`authority_compressor.rs`: a verdict on a reversible request is kept under a digest of the
request, and a later request with that digest is answered with it while it is fresh.  A digest
is taken of agent, action, target and parameters with a NUL between them, and what is fresh is
told from whole seconds.

    Faithful                   what an answer of the cache has to be
    Careful                    a request that finds an entry finds its own, and not in the
                               second in which the entry outlives its time
    sameAction_of_message_eq   without a NUL in it, a request has its message to itself
    faithful_along             in every run whose requests are careful, all answers are faithful

Times are nanoseconds since the epoch.  SHA-256 is any function with 32-byte digests; what a
theorem needs of it is that no two messages of a run collide.
-/
import Mathlib
import Cognos.Lib.Json.Value
import Cognos.Lib.Run
import Cognos.Lib.Separated
import Cognos.Lib.Sha256

namespace Hal

/-! ## Requests and verdicts -/

/-- A HAL action request, in the minimal shape needed for compression. -/
structure ActionRequest where
  agent : String
  action : String
  target : String
  irreversible : Bool
  parameters : Json.Value

/-- What is digested of a request.  Printing a JSON value does not fail. -/
def ActionRequest.message (req : ActionRequest) : List UInt8 :=
  Text.bytes req.agent ++ 0 :: (Text.bytes req.action ++ 0 :: (Text.bytes req.target ++
    0 :: Text.bytes req.parameters.print))

abbrev ActionDigest := List UInt8

/-- `ActionDigest::from_request`. -/
def ActionDigest.fromRequest (H : Sha256) (req : ActionRequest) : ActionDigest :=
  H.digest req.message

/-- A HAL verdict on an action. -/
structure Verdict where
  allowed : Bool
  riskScore : Float32
  reason : String
  issuedAt : Int

structure CachedVerdict where
  verdict : Verdict
  digest : ActionDigest
  cachedAt : Int
  hitCount : Nat

inductive InvalidationReason
  | policyChanged | trustChanged | capabilityRevoked | manualFlush

/-! ## The cache -/

/-- A map with a capacity, and its keys from the oldest to the newest. -/
structure LruCache (K V : Type) [DecidableEq K] where
  inner : AList fun _ : K => V
  capacity : Nat
  insertOrder : List K

namespace LruCache

variable {K V : Type} [DecidableEq K]

def new (capacity : Nat) : LruCache K V := ⟨∅, capacity, []⟩

/-- The oldest entry goes, if the cache is full. -/
def evict (c : LruCache K V) : LruCache K V :=
  match c.insertOrder with
  | [] => c
  | oldest :: rest =>
      if c.capacity ≤ c.inner.entries.length then
        { c with inner := c.inner.erase oldest, insertOrder := rest }
      else c

/-- A new key goes behind the others, after the oldest entry made way for it. -/
def insert (c : LruCache K V) (key : K) (value : V) : LruCache K V :=
  let c := if key ∈ c.inner then c
    else { c.evict with insertOrder := c.evict.insertOrder ++ [key] }
  { c with inner := c.inner.insert key value }

def get (c : LruCache K V) (key : K) : Option V := c.inner.lookup key

def clear (c : LruCache K V) : LruCache K V := { c with inner := ∅, insertOrder := [] }

theorem get_insert_self (c : LruCache K V) (key : K) (value : V) :
    (c.insert key value).get key = some value :=
  AList.lookup_insert _

theorem get_evict {c : LruCache K V} {key : K} {value : V} (h : c.evict.get key = some value) :
    c.get key = some value := by
  unfold evict at h
  split at h
  · exact h
  · next oldest rest _ =>
      split_ifs at h
      · by_cases heq : key = oldest
        · rw [heq, get, AList.lookup_erase] at h
          cases h
        · rw [get, AList.lookup_erase_ne heq] at h
          exact h
      · exact h

/-- What is under another key after an insertion was there before. -/
theorem get_insert_ne {c : LruCache K V} {key key' : K} {value value' : V} (hne : key' ≠ key)
    (h : (c.insert key value).get key' = some value') : c.get key' = some value' := by
  unfold insert at h
  rw [get, AList.lookup_insert_ne hne] at h
  split_ifs at h
  · exact h
  · exact get_evict h

theorem get_clear (c : LruCache K V) (key : K) : c.clear.get key = none :=
  AList.lookup_empty key

end LruCache

/-! ## The compressor -/

/-- `TimeDelta::num_seconds` of a duration in nanoseconds. -/
def numSeconds (age : Int) : Int := age.tdiv 1000000000

/-- `Duration::as_secs`. -/
def asSecs (ttl : Nat) : Nat := ttl / 1000000000

/-- `as u64` of an `i64`. -/
def asU64 (n : Int) : Nat := (n % 2 ^ 64).toNat

structure AuthorityCompressor where
  cache : LruCache ActionDigest Verdict
  hits : AList fun _ : ActionDigest => Nat
  ttl : Nat

namespace AuthorityCompressor

variable (H : Sha256)

def withCapacityAndTtl (capacity ttl : Nat) : AuthorityCompressor := ⟨.new capacity, ∅, ttl⟩

/-- A capacity of 1024 verdicts, and 60 seconds to live. -/
def new : AuthorityCompressor := withCapacityAndTtl 1024 (60 * 1000000000)

/-- An entry of this age is taken to have expired. -/
def expired (s : AuthorityCompressor) (age : Int) : Bool := asSecs s.ttl < asU64 (numSeconds age)

/-- An entry expires when its age has one second more than its time to live has. -/
theorem expired_iff (s : AuthorityCompressor) {age : Int} (hage : 0 ≤ age)
    (hlt : age < 2 ^ 63 * 1000000000) :
    s.expired age = true ↔ ((asSecs s.ttl + 1) * 1000000000 : Int) ≤ age := by
  have hseconds : numSeconds age = age / 1000000000 := Int.tdiv_eq_ediv_of_nonneg hage
  have hbound : age / 1000000000 < 2 ^ 64 := by omega
  have hsame : (asU64 (numSeconds age) : Int) = age / 1000000000 := by
    rw [asU64, hseconds, Int.emod_eq_of_lt (Int.ediv_nonneg hage (by decide)) hbound]
    exact Int.toNat_of_nonneg (Int.ediv_nonneg hage (by decide))
  rw [expired, decide_eq_true_iff]
  omega

/-- The counter of a digest, after one more hit. -/
def hitCount (s : AuthorityCompressor) (digest : ActionDigest) : Nat :=
  (s.hits.lookup digest).getD 0 + 1

/-- The answer of the cache, if it has one for the request, and the hit counted. -/
def compress (s : AuthorityCompressor) (request : ActionRequest) (now : Int) :
    Option CachedVerdict × AuthorityCompressor :=
  if request.irreversible then (none, s)
  else match s.cache.get (.fromRequest H request) with
    | none => (none, s)
    | some cached =>
        if s.expired (now - cached.issuedAt) then (none, s)
        else (some ⟨cached, .fromRequest H request, cached.issuedAt,
            s.hitCount (.fromRequest H request)⟩,
          { s with
            hits := s.hits.insert (.fromRequest H request)
              (s.hitCount (.fromRequest H request)) })

/-- A verdict is kept, unless on an irreversible action. -/
def store (s : AuthorityCompressor) (request : ActionRequest) (verdict : Verdict) :
    AuthorityCompressor :=
  if request.irreversible then s
  else
    { s with
      cache := s.cache.insert (.fromRequest H request) verdict
      hits := s.hits.insert (.fromRequest H request) 0 }

/-- The whole cache is dropped, whatever the reason. -/
def invalidate (s : AuthorityCompressor) (_reason : InvalidationReason) : AuthorityCompressor :=
  { s with cache := s.cache.clear, hits := ∅ }

/-- What an answer tells. -/
theorem compress_some {s : AuthorityCompressor} {request : ActionRequest} {now : Int}
    {hit : CachedVerdict} (h : (s.compress H request now).1 = some hit) :
    request.irreversible = false ∧
      s.cache.get (ActionDigest.fromRequest H request) = some hit.verdict ∧
      s.expired (now - hit.verdict.issuedAt) = false := by
  unfold compress at h
  split_ifs at h with hirr
  refine ⟨Bool.eq_false_iff.mpr hirr, ?_⟩
  cases hget : s.cache.get (ActionDigest.fromRequest H request) with
  | none =>
      rw [hget] at h
      cases h
  | some cached =>
      simp only [hget] at h
      split_ifs at h with hexpired
      cases h
      exact ⟨rfl, Bool.eq_false_iff.mpr hexpired⟩

/-- A verdict just stored is found under its message, until it expires. -/
theorem compress_store {s : AuthorityCompressor} {request request' : ActionRequest}
    {verdict : Verdict} {now : Int} (hrev : request.irreversible = false)
    (hrev' : request'.irreversible = false) (hmessage : request.message = request'.message)
    (hfresh : s.expired (now - verdict.issuedAt) = false) :
    ∃ hit, ((s.store H request verdict).compress H request' now).1 = some hit ∧
      hit.verdict = verdict := by
  have hget : (s.store H request verdict).cache.get (.fromRequest H request') = some verdict := by
    rw [store, hrev, if_neg Bool.false_ne_true, ActionDigest.fromRequest, ActionDigest.fromRequest,
      hmessage]
    exact LruCache.get_insert_self _ _ _
  have hsame : (s.store H request verdict).expired (now - verdict.issuedAt) = false := by
    rw [store, hrev, if_neg Bool.false_ne_true]
    exact hfresh
  unfold compress
  rw [hrev', if_neg Bool.false_ne_true]
  simp only [hget, hsame, if_neg Bool.false_ne_true]
  exact ⟨_, rfl, rfl⟩

theorem cache_compress (s : AuthorityCompressor) (request : ActionRequest) (now : Int) :
    (s.compress H request now).2.cache = s.cache ∧ (s.compress H request now).2.ttl = s.ttl := by
  unfold compress
  split_ifs
  · exact ⟨rfl, rfl⟩
  · cases s.cache.get (.fromRequest H request) with
    | none => exact ⟨rfl, rfl⟩
    | some cached =>
        by_cases hexpired : s.expired (now - cached.issuedAt) = true
        · simp only [if_pos hexpired, and_self]
        · simp only [if_neg hexpired, and_self]

end AuthorityCompressor

/-! ## Whose message it is -/

/-- The requests ask for the same action of the same agent. -/
def SameAction (r r' : ActionRequest) : Prop :=
  r.agent = r'.agent ∧ r.action = r'.action ∧ r.target = r'.target ∧ r.parameters = r'.parameters

theorem SameAction.message_eq {r r' : ActionRequest} (h : SameAction r r') :
    r.message = r'.message := by
  obtain ⟨hagent, haction, htarget, hparameters⟩ := h
  rw [ActionRequest.message, hagent, haction, htarget, hparameters, ActionRequest.message]

theorem nul_not_mem_print (v : Json.Value) : '\x00' ∉ v.print.toList := by
  intro h
  rw [Json.Value.print, String.toList_ofList] at h
  obtain ⟨t, -, ht⟩ := List.mem_flatMap.mp h
  exact absurd (Json.le_of_mem_text t _ ht) (by decide)

/-- The texts of a request that are not escaped. -/
def ActionRequest.texts (r : ActionRequest) : List String := [r.agent, r.action, r.target]

/-- No other request has the message of one whose texts are free of NULs. -/
theorem sameAction_of_message_eq {r r' : ActionRequest}
    (hnul : ∀ t ∈ r.texts, '\x00' ∉ t.toList) (h : r.message = r'.message) : SameAction r r' := by
  have hzero : ∀ s : String, (0 : UInt8) ∈ Text.bytes s ↔ '\x00' ∈ s.toList := fun s =>
    Separated.mem_bytes_iff (by decide) rfl
  have hjoin : Separated.join (0 : UInt8) (r.texts.map Text.bytes) (Text.bytes r.parameters.print) =
      Separated.join 0 (r'.texts.map Text.bytes) (Text.bytes r'.parameters.print) := h
  have hfields : ∀ f ∈ r.texts.map Text.bytes, (0 : UInt8) ∉ f := by
    intro f hf
    obtain ⟨t, ht, rfl⟩ := List.mem_map.mp hf
    exact mt (hzero t).mp (hnul t ht)
  have htexts : ∀ f ∈ r'.texts.map Text.bytes, Separated.IsText f := by
    intro f hf
    obtain ⟨t, -, rfl⟩ := List.mem_map.mp hf
    exact Separated.isText_bytes t
  rcases Separated.eq_of_join_eq (Separated.IsText.cut (by decide)) hfields htexts (le_refl 3)
    hjoin with ⟨hsame, hparameters⟩ | ⟨l, rest, hrest, -⟩
  · have hsame := List.map_injective_iff.mpr Text.bytes_injective hsame
    simp only [ActionRequest.texts, List.cons.injEq, and_true] at hsame
    exact ⟨hsame.1, hsame.2.1, hsame.2.2, Json.print_injective (Text.bytes_injective hparameters)⟩
  · -- the text of a JSON value has no NUL
    have hmem : (0 : UInt8) ∈ Text.bytes r.parameters.print := by
      rw [hrest]
      exact List.mem_append_right _ List.mem_cons_self
    exact absurd ((hzero _).mp hmem) (nul_not_mem_print _)

/-! ## Runs -/

/-- The newest of these stores whose request meets `P`: of which request, and with which
verdict. -/
inductive Newest (P : ActionRequest → Prop) :
    List (ActionRequest × Verdict) → ActionRequest → Verdict → Prop
  | head {r v rest} : P r → Newest P ((r, v) :: rest) r v
  | tail {p r v rest} : ¬ P p.1 → Newest P rest r v → Newest P (p :: rest) r v

theorem Newest.meets {P : ActionRequest → Prop} {stored : List (ActionRequest × Verdict)}
    {r : ActionRequest} {v : Verdict} (h : Newest P stored r v) : P r ∧ (r, v) ∈ stored := by
  induction h with
  | head hr => exact ⟨hr, List.mem_cons_self⟩
  | tail _ _ ih => exact ⟨ih.1, List.mem_cons_of_mem _ ih.2⟩

/-- Under a condition that the newest one meets as well, and no other store meets anew, it is the
newest one. -/
theorem Newest.mono {P Q : ActionRequest → Prop} {stored : List (ActionRequest × Verdict)}
    {r : ActionRequest} {v : Verdict} (h : Newest P stored r v) (hr : Q r)
    (hQP : ∀ p ∈ stored, Q p.1 → P p.1) : Newest Q stored r v := by
  induction h with
  | head _ => exact .head hr
  | tail hp _ ih =>
      obtain ⟨hfirst, hrest⟩ := List.forall_mem_cons.mp hQP
      exact .tail (mt hfirst hp) (ih hr hrest)

inductive CompressorCall
  | store (request : ActionRequest) (verdict : Verdict)
  | compress (request : ActionRequest) (now : Int)
  | invalidate (reason : InvalidationReason)

/-- The request of a call. -/
def CompressorCall.request? : CompressorCall → Option ActionRequest
  | .store request _ => some request
  | .compress request _ => some request
  | .invalidate _ => none

/-- The compressor, and what was stored since the cache was last dropped, the newest first. -/
structure Compression where
  compressor : AuthorityCompressor
  stored : List (ActionRequest × Verdict)

namespace Compression

variable (H : Sha256)

def start (capacity ttl : Nat) : Compression := ⟨.withCapacityAndTtl capacity ttl, []⟩

def step (s : Compression) : CompressorCall → Compression
  | .store request verdict =>
      ⟨s.compressor.store H request verdict,
        if request.irreversible then s.stored else (request, verdict) :: s.stored⟩
  | .compress request now => ⟨(s.compressor.compress H request now).2, s.stored⟩
  | .invalidate reason => ⟨s.compressor.invalidate reason, []⟩

/-- What is answered is the verdict stored last for the same action, and not too old. -/
def Faithful (s : Compression) : CompressorCall → Prop
  | .compress request now => ∀ hit, (s.compressor.compress H request now).1 = some hit →
      request.irreversible = false ∧
      (∃ r, Newest (SameAction · request) s.stored r hit.verdict) ∧
      now - hit.verdict.issuedAt ≤ s.compressor.ttl
  | _ => True

/-- Where there is an entry for the request, the last store under the request's message was for
the same action; and if the seconds of the entry's age do not exceed those of its time to live,
then neither does the age. -/
def Careful (s : Compression) : CompressorCall → Prop
  | .compress request now => request.irreversible = false →
      ∀ v, s.compressor.cache.get (ActionDigest.fromRequest H request) = some v →
        (∀ r w, Newest (·.message = request.message) s.stored r w → SameAction r request) ∧
        (s.compressor.expired (now - v.issuedAt) = false →
          now - v.issuedAt ≤ s.compressor.ttl)
  | _ => True

/-- No two of these requests have one digest for two messages. -/
def CollisionFree (requests : List ActionRequest) : Prop :=
  ∀ r ∈ requests, ∀ r' ∈ requests, H.digest r.message = H.digest r'.message →
    r.message = r'.message

/-- Every entry has the verdict of the newest store under its digest. -/
structure Backed (requests : List ActionRequest) (s : Compression) : Prop where
  known : ∀ p ∈ s.stored, p.1 ∈ requests
  newest : ∀ digest v, s.compressor.cache.get digest = some v →
    ∃ r, Newest (H.digest ·.message = digest) s.stored r v

variable {H} {requests : List ActionRequest} {s : Compression}

theorem backed_start (capacity ttl : Nat) : Backed H requests (start capacity ttl) := by
  refine ⟨fun p hp => absurd hp List.not_mem_nil, fun digest v h => ?_⟩
  cases h

theorem Backed.step (h : Backed H requests s) {c : CompressorCall}
    (hc : ∀ r ∈ c.request?, r ∈ requests) : Backed H requests (s.step H c) := by
  cases c with
  | invalidate reason =>
      refine ⟨fun p hp => absurd hp List.not_mem_nil, fun digest v hget => ?_⟩
      rw [show (s.step H (.invalidate reason)).compressor.cache = s.compressor.cache.clear from rfl,
        LruCache.get_clear] at hget
      cases hget
  | compress request now =>
      refine ⟨h.known, fun digest v hget => ?_⟩
      have hcache := (s.compressor.cache_compress H request now).1
      rw [show (s.step H (.compress request now)).compressor.cache = s.compressor.cache from hcache]
        at hget
      exact h.newest digest v hget
  | store request verdict =>
      by_cases hirr : request.irreversible = true
      · have hsame : s.step H (.store request verdict) = s := by
          rw [Compression.step, AuthorityCompressor.store, if_pos hirr, if_pos hirr]
        rw [hsame]
        exact h
      · have hnext : s.step H (.store request verdict) =
            ⟨⟨s.compressor.cache.insert (H.digest request.message) verdict,
              s.compressor.hits.insert (H.digest request.message) 0, s.compressor.ttl⟩,
              (request, verdict) :: s.stored⟩ := by
          rw [Compression.step, AuthorityCompressor.store, if_neg hirr, if_neg hirr]
          rfl
        rw [hnext]
        refine ⟨List.forall_mem_cons.mpr ⟨hc request rfl, h.known⟩, fun digest v hget => ?_⟩
        by_cases hdigest : digest = H.digest request.message
        · subst hdigest
          rw [LruCache.get_insert_self] at hget
          cases hget
          exact ⟨request, .head rfl⟩
        · obtain ⟨r, hr⟩ := h.newest digest v (LruCache.get_insert_ne hdigest hget)
          exact ⟨r, .tail (Ne.symm hdigest) hr⟩

/-- An entry that is found with care is the request's own. -/
theorem Backed.faithful (h : Backed H requests s) (hfree : CollisionFree H requests)
    {c : CompressorCall} (hc : ∀ r ∈ c.request?, r ∈ requests) (hcareful : s.Careful H c) :
    s.Faithful H c := by
  cases c with
  | store request verdict => trivial
  | invalidate reason => trivial
  | compress request now =>
      intro hit hhit
      obtain ⟨hrev, hget, hfresh⟩ := AuthorityCompressor.compress_some H hhit
      obtain ⟨hown, hage⟩ := hcareful hrev hit.verdict hget
      refine ⟨hrev, ?_, hage hfresh⟩
      obtain ⟨r, hr⟩ := h.newest _ _ hget
      have hmessage : r.message = request.message :=
        hfree r (h.known _ hr.meets.2) request (hc request rfl) hr.meets.1
      have hbyMessage := hr.mono (Q := (·.message = request.message)) hmessage
        fun p _ hp => congrArg H.digest hp
      exact ⟨r, hbyMessage.mono (hown r _ hbyMessage) fun p _ hp => hp.message_eq⟩

/-- In every run of stores, compressions and invalidations in which each compression is careful
and no two messages collide, every answer is faithful. -/
theorem faithful_along (capacity ttl : Nat) {calls : List CompressorCall}
    (hfree : CollisionFree H (calls.filterMap (·.request?)))
    (hcareful : Run.Along (step H) (Careful H) (start capacity ttl) calls) :
    Run.Along (step H) (Faithful H) (start capacity ttl) calls := by
  have hall : ∀ c ∈ calls, ∀ r ∈ c.request?, r ∈ calls.filterMap (·.request?) :=
    fun c hc r hr => List.mem_filterMap.mpr ⟨c, hc, hr⟩
  refine Run.along_of_invariant (step H)
    (I := Backed H (calls.filterMap (·.request?))) ?_ ?_ (backed_start capacity ttl)
    (hcareful.and_forall (step H) hall)
  · intro s c hs hc
    exact hs.step hc.1
  · intro s c hs hc
    exact hs.faithful hfree hc.1 hc.2

/-! A file of an editor, for a minute. -/

def openFile : ActionRequest := ⟨"editor", "open_file", "/tmp/a.txt", false, .null⟩

def permitted : Verdict := ⟨true, 0.125, "workspace", 0⟩

def second : Nat := 1000000000

/-- It is opened once more after a second. -/
def openedTwice : List CompressorCall := [.store openFile permitted, .compress openFile second]

/-- The SHA-256 of `openFile.message`. -/
def openFileDigest : Nat := 0x0475dccad1ca7ab240b8ccaf9a1f7e6c0eb2f8a8a54c734030d8fbef378fec63

def openFileSha : Sha256 where
  digest bs := Sha256.bytes32 (if bs = openFile.message then openFileDigest else 0)
  length_digest bs := by rw [Sha256.bytes32, List.length_map, List.length_range]

theorem faithful_along_openedTwice :
    Run.Along (step openFileSha) (Faithful openFileSha) (start 16 (60 * second)) openedTwice := by
  refine faithful_along 16 (60 * second) ?_ ⟨trivial, ?_, trivial⟩
  · intro r hr r' hr' _
    rw [List.mem_pair.mp hr |>.elim id id, List.mem_pair.mp hr' |>.elim id id]
  · intro _ v hv
    have hstored : ((start 16 (60 * second)).step openFileSha
        (.store openFile permitted)).compressor.cache.get (.fromRequest openFileSha openFile) =
          some permitted :=
      LruCache.get_insert_self _ _ _
    obtain rfl := Option.some.inj (hstored.symm.trans hv)
    refine ⟨fun r w hnewest => ?_, fun _ => by decide⟩
    have hopen : r = openFile := congrArg Prod.fst (List.mem_singleton.mp hnewest.meets.2)
    rw [hopen]
    exact ⟨rfl, rfl, rfl, rfl⟩

/-- To read one file, and to read another one under a name with a NUL in it. -/
def readFirst : ActionRequest := ⟨"editor", "read\x00/home/ana", "notes", false, .null⟩

def readSecond : ActionRequest := ⟨"editor", "read", "/home/ana\x00notes", false, .null⟩

/-- The one is permitted, and the other is asked for. -/
def nulRun : List CompressorCall := [.store readFirst permitted, .compress readSecond second]

/-- A file is opened half a second after its verdict has outlived the minute. -/
def lateRun : List CompressorCall :=
  [.store openFile permitted, .compress openFile (60 * second + second / 2)]

/-- Both are answered from the cache. -/
theorem not_faithful :
    (∀ H : Sha256, CollisionFree H (nulRun.filterMap (·.request?)) ∧
      ¬ Run.Along (step H) (Faithful H) (start 16 (60 * second)) nulRun) ∧
    ∀ H : Sha256, CollisionFree H (lateRun.filterMap (·.request?)) ∧
      ¬ Run.Along (step H) (Faithful H) (start 16 (60 * second)) lateRun := by
  have hmessage : readFirst.message = readSecond.message := by decide
  refine ⟨fun H => ⟨?_, fun h => ?_⟩, fun H => ⟨?_, fun h => ?_⟩⟩
  · intro r hr r' hr' _
    rcases List.mem_pair.mp hr with rfl | rfl <;> rcases List.mem_pair.mp hr' with rfl | rfl
    · rfl
    · exact hmessage
    · exact hmessage.symm
    · rfl
  · have hfresh : (AuthorityCompressor.withCapacityAndTtl 16 (60 * second)).expired
        (second - permitted.issuedAt) = false := by decide
    obtain ⟨hit, hhit, -⟩ := AuthorityCompressor.compress_store H rfl rfl hmessage hfresh
    obtain ⟨-, ⟨r, hnewest⟩, -⟩ := h.2.1 hit hhit
    have hread : r = readFirst := congrArg Prod.fst (List.mem_singleton.mp hnewest.meets.2)
    have haction := hnewest.meets.1.2.1
    rw [hread] at haction
    revert haction
    decide
  · intro r hr r' hr' _
    rw [List.mem_pair.mp hr |>.elim id id, List.mem_pair.mp hr' |>.elim id id]
  · have hfresh : (AuthorityCompressor.withCapacityAndTtl 16 (60 * second)).expired
        (60 * second + second / 2 - permitted.issuedAt) = false := by decide
    have holder : ¬ (60 * second + second / 2 - permitted.issuedAt : Int) ≤
        (60 * second : Nat) := by decide
    have hrev : openFile.irreversible = false := rfl
    obtain ⟨hit, hhit, hverdict⟩ := AuthorityCompressor.compress_store H hrev hrev rfl hfresh
    obtain ⟨-, -, hage⟩ := h.2.1 hit hhit
    rw [hverdict] at hage
    exact holder hage

end Compression

end Hal

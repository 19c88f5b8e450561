/-
# `Cognos.Hal.AuditChain` — the audit chain in memory

`audit_chain.rs`.  Entries are kept in memory, each with its number, the hash of the one
before it and a hash of that and its own JSON text.  `verify` goes over them from the genesis
hash.  A chain is made by `new`, with the genesis hash at its head, or by the derived
`Default`, whose head is thirty-two zeros.

The metadata of an entry is a hash map; it is listed here in the order it is iterated in.

    valid_verifyFrom_iff   what `verify` asks of the entries
    intact_append          what an append keeps
    sound_from_iff         which of the two constructors makes a chain that verifies
-/
import Mathlib
import Cognos.Lib.Codecs
import Cognos.Lib.HashChain
import Cognos.Lib.Json.Natural
import Cognos.Lib.Run
import Cognos.Lib.Sha256

namespace Hal.Chain

/-! ## Entries -/

/-- A `HashMap` of strings, in the order of its iteration. -/
structure Metadata where
  entries : List (String × String)
  nodup : (entries.map Prod.fst).Nodup
  deriving DecidableEq

/-- A single audit entry, before chaining. -/
structure AuditEntry (Time : Type) where
  id : Uuid
  ts : Time
  agent : String
  action : String
  halScore : Option Float32
  halLevel : Option String
  metadata : Metadata

/-- `[u8; 32]`. -/
abbrev Hash := { bs : List UInt8 // bs.length = 32 }

/-- An audit entry plus its chaining fields. -/
structure ChainedEntry (Time : Type) where
  seq : Nat
  prevHash : Hash
  entry : AuditEntry Time
  entryHash : Hash

/-- Result of a chain verification pass. -/
structure VerifyResult where
  valid : Bool
  brokenAt : Option Nat
  error : Option String
  entriesInspected : Nat
  deriving DecidableEq

inductive ChainError
  | io (e : String)
  | serialize (e : String)
  | headHashMismatch
  deriving DecidableEq

def ChainError.text : ChainError → String
  | .io e => "audit chain I/O error: " ++ e
  | .serialize e => "audit chain serialization error: " ++ e
  | .headHashMismatch => "chain head hash mismatch"

/-- The in-memory hash-chained audit log. -/
structure AuditChain (Time : Type) where
  entries : List (ChainedEntry Time)
  headHash : Hash

/-! ## Text and hashes -/

section Text

variable {Time : Type} (K : Codecs Time)

def optionJson : Option String → Json.Value
  | some s => .str s
  | none => .null

/-- The derived writer of a score: `null` where there is none, or none that is finite. -/
def scoreJson : Option Float32 → Json.Value
  | some x => K.f32 x
  | none => .null

def Metadata.json (m : Metadata) : Json.Value := .obj (m.entries.map fun p => (p.1, .str p.2))

/-- The members of an entry; nothing is left out. -/
def AuditEntry.members (e : AuditEntry Time) : List (String × Option Json.Value) :=
  [("id", some (.str e.id.text)), ("ts", some (.str (K.showTime e.ts))),
    ("agent", some (.str e.agent)), ("action", some (.str e.action)),
    ("hal_score", some (scoreJson K e.halScore)), ("hal_level", some (optionJson e.halLevel)),
    ("metadata", some e.metadata.json)]

def AuditEntry.json (e : AuditEntry Time) : Json.Value := Json.record (e.members K)

/-- The text that is hashed. -/
def AuditEntry.canonical (e : AuditEntry Time) : String := (e.json K).print

/-- `serde_json::to_string(&entry)`; nothing in an entry makes it fail. -/
def serialize (e : AuditEntry Time) : Except String String := .ok (e.canonical K)

end Text

def genesisSeed : String := "cognos-audit-v1"

section Hashes

variable {Time : Type} (K : Codecs Time) (H : Sha256)

def sha256 (bs : List UInt8) : Hash := ⟨H.digest bs, H.length_digest bs⟩

def genesisHash : Hash := sha256 H (Text.bytes genesisSeed)

/-- The hash of `prev_hash || canonical_json(entry)`. -/
def computeHash (prevHash : Hash) (entry : AuditEntry Time) : Except ChainError Hash := do
  let json ← (serialize K entry).mapError .serialize
  return sha256 H (prevHash.val ++ Text.bytes json)

/-- Hex-encode a hash, for error messages. -/
def hexHash (hash : Hash) : String := Hex.encode hash.val

/-- How the entries of a chain are linked. -/
def links : HashChain (ChainedEntry Time) String Hash where
  body c := c.entry.canonical K
  hash := ChainedEntry.entryHash
  link previous json := sha256 H (previous.val ++ Text.bytes json)
  genesis := genesisHash H

theorem computeHash_eq (prevHash : Hash) (entry : AuditEntry Time) :
    computeHash K H prevHash entry = .ok ((links K H).link prevHash (entry.canonical K)) := rfl

/-! ## The chain -/

namespace AuditChain

/-- An empty chain with the genesis head. -/
def new : AuditChain Time := ⟨[], genesisHash H⟩

/-- The derived `Default`. -/
def default : AuditChain Time := ⟨[], ⟨List.replicate 32 0, rfl⟩⟩

/-- `append`: the number assigned, and the chain. -/
def append (c : AuditChain Time) (entry : AuditEntry Time) :
    Except ChainError Nat × AuditChain Time :=
  let seq := c.entries.length
  match computeHash K H c.headHash entry with
  | .error e => (.error e, c)
  | .ok entryHash => (.ok seq, ⟨c.entries ++ [⟨seq, c.headHash, entry, entryHash⟩], entryHash⟩)

def prevMismatch (chained : ChainedEntry Time) (expected : Hash) (inspected : Nat) :
    VerifyResult :=
  ⟨false, some chained.seq, some ("prev_hash mismatch at seq=" ++ toString chained.seq
    ++ " (expected " ++ hexHash expected ++ ", got " ++ hexHash chained.prevHash ++ ")"), inspected⟩

def hashMismatch (chained : ChainedEntry Time) (inspected : Nat) : VerifyResult :=
  ⟨false, some chained.seq, some ("entry_hash mismatch at seq=" ++ toString chained.seq),
    inspected⟩

def serializeError (chained : ChainedEntry Time) (e : ChainError) (inspected : Nat) :
    VerifyResult :=
  ⟨false, some chained.seq, some ("serialize error at seq=" ++ toString chained.seq ++ ": "
    ++ e.text), inspected⟩

/-- The loop of `verify`: `inspected` entries are behind it, the last of them had this hash. -/
def verifyFrom (prevHash : Hash) (inspected : Nat) : List (ChainedEntry Time) → VerifyResult
  | [] => ⟨true, none, none, inspected⟩
  | chained :: rest =>
      if chained.prevHash ≠ prevHash then prevMismatch chained prevHash (inspected + 1)
      else match computeHash K H chained.prevHash chained.entry with
        | .ok recomputed =>
            if recomputed = chained.entryHash then verifyFrom chained.entryHash (inspected + 1) rest
            else hashMismatch chained (inspected + 1)
        | .error e => serializeError chained e (inspected + 1)

def verify (c : AuditChain Time) : VerifyResult := verifyFrom K H (genesisHash H) 0 c.entries

/-! ## What is verified -/

/-- Each entry names the hash of the one before it, and carries the link of the two. -/
structure Follows (start : Hash) (entries : List (ChainedEntry Time)) : Prop where
  linked : (links K H).Linked start entries
  previous : entries.map ChainedEntry.prevHash = ((links K H).links start entries).map Prod.fst

theorem follows_nil (start : Hash) : Follows K H start ([] : List (ChainedEntry Time)) :=
  ⟨trivial, rfl⟩

theorem follows_cons {start : Hash} {chained : ChainedEntry Time}
    {rest : List (ChainedEntry Time)} :
    Follows K H start (chained :: rest) ↔ chained.prevHash = start ∧
      chained.entryHash = (links K H).link start (chained.entry.canonical K) ∧
      Follows K H chained.entryHash rest := by
  constructor
  · rintro ⟨⟨hhash, hlinked⟩, hprevious⟩
    obtain ⟨hprev, hrest⟩ := List.cons.inj hprevious
    exact ⟨hprev, hhash, hlinked, hrest⟩
  · rintro ⟨hprev, hhash, hlinked, hrest⟩
    exact ⟨⟨hhash, hlinked⟩, List.cons_eq_cons.mpr ⟨hprev, hrest⟩⟩

theorem verifyFrom_of_follows {start : Hash} {entries : List (ChainedEntry Time)}
    (h : Follows K H start entries) (inspected : Nat) :
    verifyFrom K H start inspected entries = ⟨true, none, none, inspected + entries.length⟩ := by
  induction entries generalizing start inspected with
  | nil => rfl
  | cons chained rest ih =>
      obtain ⟨hprev, hhash, hrest⟩ := (follows_cons K H).mp h
      rw [verifyFrom, if_neg (not_not.mpr hprev), computeHash_eq, hprev]
      simp only
      rw [if_pos hhash.symm, ih hrest, List.length_cons, Nat.add_assoc, Nat.add_comm 1]

theorem valid_verifyFrom_iff {start : Hash} {entries : List (ChainedEntry Time)}
    {inspected : Nat} :
    (verifyFrom K H start inspected entries).valid = true ↔ Follows K H start entries := by
  constructor
  · intro hvalid
    induction entries generalizing start inspected with
    | nil => exact follows_nil K H start
    | cons chained rest ih =>
        rw [verifyFrom] at hvalid
        split at hvalid
        · cases hvalid
        next hprev =>
          rw [computeHash_eq] at hvalid
          simp only at hvalid
          split at hvalid
          next hhash =>
            rw [not_not] at hprev
            rw [hprev] at hhash
            exact (follows_cons K H).mpr ⟨hprev, hhash.symm, ih hvalid⟩
          next => cases hvalid
  · intro h
    rw [verifyFrom_of_follows K H h]

/-! ## What an append keeps -/

/-- The entries follow each other from a first hash, the head is the hash of the last one, and
they are numbered from zero. -/
structure Intact (start : Hash) (c : AuditChain Time) : Prop where
  follows : Follows K H start c.entries
  head : c.headHash = (links K H).head start c.entries
  seqs : c.entries.map ChainedEntry.seq = List.range c.entries.length

theorem intact_append {start : Hash} {c : AuditChain Time} (h : Intact K H start c)
    (entry : AuditEntry Time) : Intact K H start (c.append K H entry).2 := by
  let chained : ChainedEntry Time := ⟨c.entries.length, c.headHash, entry,
    (links K H).link c.headHash (entry.canonical K)⟩
  have hentries : (c.append K H entry).2.entries = c.entries ++ [chained] := rfl
  have hhead : (c.append K H entry).2.headHash = chained.entryHash := rfl
  refine ⟨⟨?_, ?_⟩, ?_, ?_⟩
  · rw [hentries, HashChain.linked_concat, ← h.head]
    exact ⟨h.follows.linked, rfl⟩
  · rw [hentries, HashChain.links_append, List.map_append, List.map_append, h.follows.previous,
      ← h.head]
    rfl
  · rw [hentries, hhead, HashChain.head_append]
    rfl
  · rw [hentries, List.map_append, h.seqs, List.length_append, List.length_singleton,
      List.range_succ]
    rfl

/-- The chain after some appends. -/
def appendAll (c : AuditChain Time) (es : List (AuditEntry Time)) : AuditChain Time :=
  Run.after (fun c e => (append K H c e).2) c es

theorem intact_appendAll {start : Hash} {c : AuditChain Time} (h : Intact K H start c)
    (es : List (AuditEntry Time)) : Intact K H start (c.appendAll K H es) :=
  Run.invariant_of_step (I := Intact K H start) _ (fun _ e hc => intact_append K H hc e) h es

/-! ## Two constructors -/

/-- What is promised of a chain. -/
structure Sound (c : AuditChain Time) : Prop where
  verifies : c.verify K H = ⟨true, none, none, c.entries.length⟩
  seqs : c.entries.map ChainedEntry.seq = List.range c.entries.length
  head : c.headHash = (c.entries.getLast?.map ChainedEntry.entryHash).getD (genesisHash H)

/-- Where a chain comes from. -/
inductive Origin
  | new
  | default
  deriving DecidableEq

def Origin.chain : Origin → AuditChain Time
  | .new => AuditChain.new H
  | .default => AuditChain.default

theorem intact_chain (origin : Origin) :
    Intact K H (origin.chain H : AuditChain Time).headHash (origin.chain H) := by
  cases origin with
  | new => exact ⟨follows_nil K H _, rfl, rfl⟩
  | default => exact ⟨follows_nil K H _, rfl, rfl⟩

theorem head_eq_getLast (start : Hash) (entries : List (ChainedEntry Time)) :
    (links K H).head start entries =
      (entries.getLast?.map ChainedEntry.entryHash).getD start := by
  rcases List.eq_nil_or_concat entries with rfl | ⟨front, last, rfl⟩
  · rfl
  · rw [List.concat_eq_append, HashChain.head_append, List.getLast?_concat]
    rfl

/-- A chain that starts with the genesis hash is sound. -/
theorem sound_of_intact {c : AuditChain Time} (h : Intact K H (genesisHash H) c) :
    Sound K H c := by
  refine ⟨?_, h.seqs, ?_⟩
  · rw [verify, verifyFrom_of_follows K H h.follows, Nat.zero_add]
  · rw [← head_eq_getLast K H]
    exact h.head

/-- One that starts with another hash is not. -/
theorem eq_genesis_of_sound {start : Hash} {c : AuditChain Time} (h : Intact K H start c)
    (hsound : Sound K H c) : start = genesisHash H := by
  have hvalid : (verifyFrom K H (genesisHash H) 0 c.entries).valid = true :=
    congrArg VerifyResult.valid hsound.verifies
  have hfollows := (valid_verifyFrom_iff K H).mp hvalid
  have hhead := h.head
  have hgenesis := hsound.head
  have hstart := h.follows
  cases hentries : c.entries with
  | nil =>
      rw [hentries] at hhead hgenesis
      exact hhead.symm.trans hgenesis
  | cons chained rest =>
      rw [hentries] at hfollows hstart
      exact ((follows_cons K H).mp hstart).1.symm.trans ((follows_cons K H).mp hfollows).1

/-- Whatever is appended, a chain is sound exactly when `new` made it, for the genesis hash is not
all zeros. -/
theorem sound_from_iff (hgenesis : genesisHash H ≠ (AuditChain.default : AuditChain Time).headHash)
    (origin : Origin) (es : List (AuditEntry Time)) :
    Sound K H (appendAll K H (origin.chain H) es) ↔ origin = .new := by
  have hintact := intact_appendAll K H (intact_chain K H origin) es
  constructor
  · intro hsound
    have hstart := eq_genesis_of_sound K H hintact hsound
    cases origin with
    | new => rfl
    | default => exact absurd hstart.symm hgenesis
  · rintro rfl
    exact sound_of_intact K H hintact

end AuditChain

end Hashes

/-! ## A sample -/

/-- The function with these digests, and the digest 0 of all else. -/
def tableSha (digests : List (List UInt8 × Nat)) : Sha256 where
  digest bs := Sha256.bytes32 ((digests.lookup bs).getD 0)
  length_digest bs := by rw [Sha256.bytes32, List.length_map, List.length_range]

/-- An entry of the file agent with this metadata. -/
def openEntry (metadata : Metadata) : AuditEntry { s : String // Json.escapedLen s ≤ 40 } where
  id := .nil
  ts := Codecs.midnight
  agent := "file_agent"
  action := "open_file"
  halScore := none
  halLevel := none
  metadata := metadata

/-- The bytes of the genesis hash. -/
def genesisBytes : List UInt8 :=
  Sha256.bytes32 0xc14b478def96da5d7baf23a9e9e14ccfff0a8de45d647b1e0c12a6e53bd38d69

/-- The digests of the seed, and of one entry behind either head. -/
def sampleSha : Sha256 :=
  let text := Text.bytes ((openEntry ⟨[], List.nodup_nil⟩).canonical Codecs.sample)
  tableSha
    [(Text.bytes genesisSeed, 0xc14b478def96da5d7baf23a9e9e14ccfff0a8de45d647b1e0c12a6e53bd38d69),
      (genesisBytes ++ text, 0x521193d8703b8d357910c487117e074627dfbd4aba82af0f86f8d3c093cd3a08),
      (List.replicate 32 0 ++ text,
        0xcd34759e62b43f2bc0f65bc8f9826d0c3d5795573594deed34ad469b79df9825)]

theorem digest_head (bs : List UInt8) (n : Nat) (rest : List (List UInt8 × Nat)) :
    (tableSha ((bs, n) :: rest)).digest bs = Sha256.bytes32 n := by
  show Sha256.bytes32 ((((bs, n) :: rest).lookup bs).getD 0) = _
  rw [List.lookup_cons_self]
  rfl

theorem digest_of_ne {bs bs' : List UInt8} (h : bs ≠ bs') (n : Nat)
    (rest : List (List UInt8 × Nat)) :
    (tableSha ((bs', n) :: rest)).digest bs = (tableSha rest).digest bs := by
  show Sha256.bytes32 ((((bs', n) :: rest).lookup bs).getD 0) = _
  rw [List.lookup_cons, beq_false_of_ne h]
  rfl

theorem genesis_ne_zeros : genesisHash sampleSha ≠
    (AuditChain.default : AuditChain { s : String // Json.escapedLen s ≤ 40 }).headHash := by
  intro h
  have hbytes : sampleSha.digest (Text.bytes genesisSeed) = List.replicate 32 0 :=
    congrArg Subtype.val h
  rw [sampleSha, digest_head] at hbytes
  exact absurd hbytes (by decide)

namespace AuditChain

/-- One entry in a chain that `new` made. -/
theorem sound_from_iff_new :
    Sound Codecs.sample sampleSha (appendAll Codecs.sample sampleSha (Origin.new.chain sampleSha)
      [openEntry ⟨[], List.nodup_nil⟩]) ↔ Origin.new = .new :=
  sound_from_iff Codecs.sample sampleSha genesis_ne_zeros .new _

/-- One entry in a chain that `Default` made. -/
theorem not_sound_default : ¬ ∀ (origin : Origin)
    (es : List (AuditEntry { s : String // Json.escapedLen s ≤ 40 })),
    Sound Codecs.sample sampleSha
      (appendAll Codecs.sample sampleSha (origin.chain sampleSha) es) := by
  intro h
  have hsound := h .default [openEntry ⟨[], List.nodup_nil⟩]
  have hintact := intact_appendAll Codecs.sample sampleSha
    (intact_chain Codecs.sample sampleSha .default) [openEntry ⟨[], List.nodup_nil⟩]
  exact genesis_ne_zeros (eq_genesis_of_sound Codecs.sample sampleSha hintact hsound).symm

end AuditChain

end Hal.Chain

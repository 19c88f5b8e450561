/-
# `Cognos.Hal.RecursiveIdentity` — what identity and provenance hashes bind

`recursive_identity.rs` and the chain hash of `provenance.rs`: SHA-256 of a tag, the constitution,
the capabilities and the audit head, with a NUL behind each of the first three; and of two hashes
as texts and a timestamp, with nothing between them.  The last part has a fixed length, so what
can move is a piece from the end of one part to the start of the next.

    preimage_eq_iff          which triples have one preimage
    chainPreimage_eq_iff     which links have one
    hashes_bind_iff          when the hashes bind, if none of these preimages collide
-/
import Mathlib
import Cognos.Lib.Sha256
import Cognos.AgentIpc.HashCoverage
import Cognos.Hal.AuditChain

namespace Hal.Identity

/-! ## The two hashes -/

/-- The three identity-defining blobs. -/
structure Blobs where
  constitution : List UInt8
  capabilities : List UInt8
  auditHead : { bs : List UInt8 // bs.length = 32 }
deriving DecidableEq

/-- A 32-byte SHA-256 identity hash. -/
abbrev IdentityHash := List UInt8

def identityTag : List UInt8 := Text.bytes "cognos-identity-v1" ++ [0]

/-- The bytes fed to the hash. -/
def Blobs.preimage (b : Blobs) : List UInt8 :=
  identityTag ++ b.constitution ++ [0] ++ b.capabilities ++ [0] ++ b.auditHead.val

/-- `IdentityHash::compute`. -/
def IdentityHash.compute (H : Sha256) (b : Blobs) : IdentityHash := H.digest b.preimage

/-- What a chain hash is of. -/
structure ChainLink where
  parentHash : String
  payloadHash : String
  timestamp : Int64
deriving DecidableEq

/-- The bytes fed to the hash. -/
def ChainLink.preimage (l : ChainLink) : List UInt8 :=
  Text.bytes l.parentHash ++ Text.bytes l.payloadHash ++ AgentIpc.toLeBytes l.timestamp

def computeChainHash (H : Sha256) (l : ChainLink) : String := Hex.encode (H.digest l.preimage)

def validateChain (H : Sha256) (expectedHash : String) (l : ChainLink) : Bool :=
  decide (computeChainHash H l = expectedHash)

/-! ## What can move -/

/-- A piece with a NUL before it moves from the end of one constitution to the start of the other
capabilities. -/
def Blobs.MovedTo (b b' : Blobs) : Prop :=
  b.auditHead = b'.auditHead ∧
    ∃ piece, b.constitution = b'.constitution ++ 0 :: piece ∧
      b'.capabilities = piece ++ 0 :: b.capabilities

/-- A piece moves from the end of one parent hash to the start of the other payload hash. -/
def ChainLink.MovedTo (l l' : ChainLink) : Prop :=
  l.timestamp = l'.timestamp ∧
    ∃ piece, piece ≠ "" ∧ l.parentHash = l'.parentHash ++ piece ∧
      l'.payloadHash = piece ++ l.payloadHash

theorem Blobs.not_movedTo_self {b : Blobs} : ¬ b.MovedTo b := by
  rintro ⟨-, piece, hpiece, -⟩
  exact absurd (List.self_eq_append_right.mp hpiece) (List.cons_ne_nil _ _)

theorem ChainLink.not_movedTo_self {l : ChainLink} : ¬ l.MovedTo l := by
  rintro ⟨-, piece, hne, hpiece, -⟩
  have hchars := congrArg String.toList hpiece
  rw [String.toList_append, List.self_eq_append_right, String.toList_eq_nil_iff] at hchars
  exact hne hchars

/-- Two parts with a separator between them are the same bytes when the parts are, or when a piece
with a separator has moved. -/
theorem separated_eq_iff {a b a' b' : List UInt8} :
    a ++ 0 :: b = a' ++ 0 :: b' ↔ (a = a' ∧ b = b') ∨
      (∃ piece, a = a' ++ 0 :: piece ∧ b' = piece ++ 0 :: b) ∨
      ∃ piece, a' = a ++ 0 :: piece ∧ b = piece ++ 0 :: b' := by
  constructor
  · intro h
    rcases List.append_eq_append_iff.mp h with ⟨rest, ha, hb⟩ | ⟨rest, ha, hb⟩
    · cases rest with
      | nil =>
          rw [List.append_nil] at ha
          exact Or.inl ⟨ha.symm, (List.cons.inj hb).2⟩
      | cons byte piece =>
          rw [List.cons_append, List.cons.injEq] at hb
          obtain ⟨rfl, hb⟩ := hb
          exact Or.inr (Or.inr ⟨piece, ha, hb⟩)
    · cases rest with
      | nil =>
          rw [List.append_nil] at ha
          exact Or.inl ⟨ha, (List.cons.inj hb).2.symm⟩
      | cons byte piece =>
          rw [List.cons_append, List.cons.injEq] at hb
          obtain ⟨rfl, hb⟩ := hb
          exact Or.inr (Or.inl ⟨piece, ha, hb⟩)
  · rintro (⟨rfl, rfl⟩ | ⟨piece, rfl, rfl⟩ | ⟨piece, rfl, rfl⟩)
    · rfl
    · rw [List.append_assoc, List.cons_append]
    · rw [List.append_assoc, List.cons_append]

/-- A text in front of another one's end is that text, or there is a piece between them. -/
theorem eq_or_piece {s s' t t' : String} {piece : List Char} (hs : s.toList = s'.toList ++ piece)
    (ht : t'.toList = piece ++ t.toList) :
    (s = s' ∧ t = t') ∨ ∃ piece, piece ≠ "" ∧ s = s' ++ piece ∧ t' = piece ++ t := by
  have hs : s = s' ++ String.ofList piece := by
    rw [← String.toList_inj, String.toList_append, String.toList_ofList, hs]
  have ht : t' = String.ofList piece ++ t := by
    rw [← String.toList_inj, String.toList_append, String.toList_ofList, ht]
  by_cases hempty : String.ofList piece = ""
  · rw [hempty, String.append_empty] at hs
    rw [hempty, String.empty_append] at ht
    exact Or.inl ⟨hs, ht.symm⟩
  · exact Or.inr ⟨_, hempty, hs, ht⟩

/-- Two texts behind each other are the same when the texts are, or when a piece has moved. -/
theorem texts_eq_iff {s t s' t' : String} :
    s ++ t = s' ++ t' ↔ (s = s' ∧ t = t') ∨
      (∃ piece, piece ≠ "" ∧ s = s' ++ piece ∧ t' = piece ++ t) ∨
      ∃ piece, piece ≠ "" ∧ s' = s ++ piece ∧ t = piece ++ t' := by
  constructor
  · intro h
    have hchars := congrArg String.toList h
    rw [String.toList_append, String.toList_append] at hchars
    rcases List.append_eq_append_iff.mp hchars with ⟨piece, hs, ht⟩ | ⟨piece, hs, ht⟩
    · rcases eq_or_piece hs ht with ⟨rfl, rfl⟩ | hmoved
      · exact Or.inl ⟨rfl, rfl⟩
      · exact Or.inr (Or.inr hmoved)
    · rcases eq_or_piece hs ht with hsame | hmoved
      · exact Or.inl hsame
      · exact Or.inr (Or.inl hmoved)
  · rintro (⟨rfl, rfl⟩ | ⟨piece, -, rfl, rfl⟩ | ⟨piece, -, rfl, rfl⟩)
    · rfl
    · rw [String.append_assoc]
    · rw [String.append_assoc]

/-- Two triples have one preimage when they are the same, or a piece has moved from one
constitution to the other's capabilities. -/
theorem preimage_eq_iff {b b' : Blobs} :
    b.preimage = b'.preimage ↔ b = b' ∨ b.MovedTo b' ∨ b'.MovedTo b := by
  have hlen : b.auditHead.val.length = b'.auditHead.val.length := by
    rw [b.auditHead.property, b'.auditHead.property]
  have hparts : b.preimage = b'.preimage ↔
      b.constitution ++ 0 :: b.capabilities = b'.constitution ++ 0 :: b'.capabilities ∧
        b.auditHead = b'.auditHead := by
    rw [Blobs.preimage, Blobs.preimage, List.append_eq_append_iff_of_size_eq_right hlen,
      List.append_cancel_right_eq, List.append_assoc, List.append_assoc, List.append_assoc,
      List.append_assoc, List.append_cancel_left_eq, Subtype.ext_iff]
    rfl
  rw [hparts, separated_eq_iff]
  constructor
  · rintro ⟨⟨hc, hp⟩ | hmoved | hmoved, hhead⟩
    · left
      cases b
      cases b'
      congr
    · exact Or.inr (Or.inl ⟨hhead, hmoved⟩)
    · exact Or.inr (Or.inr ⟨hhead.symm, hmoved⟩)
  · rintro (rfl | ⟨hhead, hmoved⟩ | ⟨hhead, hmoved⟩)
    · exact ⟨Or.inl ⟨rfl, rfl⟩, rfl⟩
    · exact ⟨Or.inr (Or.inl hmoved), hhead⟩
    · exact ⟨Or.inr (Or.inr hmoved), hhead.symm⟩

/-- Two links have one preimage when they are the same, or a piece has moved from one parent hash
to the other payload hash. -/
theorem chainPreimage_eq_iff {l l' : ChainLink} :
    l.preimage = l'.preimage ↔ l = l' ∨ l.MovedTo l' ∨ l'.MovedTo l := by
  have hlen : (AgentIpc.toLeBytes l.timestamp).length =
      (AgentIpc.toLeBytes l'.timestamp).length := by
    rw [AgentIpc.IntentEnvelope.length_toLeBytes, AgentIpc.IntentEnvelope.length_toLeBytes]
  have hparts : l.preimage = l'.preimage ↔
      l.parentHash ++ l.payloadHash = l'.parentHash ++ l'.payloadHash ∧
        l.timestamp = l'.timestamp := by
    rw [ChainLink.preimage, ChainLink.preimage, List.append_eq_append_iff_of_size_eq_right hlen,
      ← Text.bytes_append, ← Text.bytes_append, Text.bytes_injective.eq_iff,
      AgentIpc.IntentEnvelope.toLeBytes_injective.eq_iff]
  rw [hparts, texts_eq_iff]
  constructor
  · rintro ⟨⟨hs, ht⟩ | hmoved | hmoved, htime⟩
    · left
      cases l
      cases l'
      congr
    · exact Or.inr (Or.inl ⟨htime, hmoved⟩)
    · exact Or.inr (Or.inr ⟨htime.symm, hmoved⟩)
  · rintro (rfl | ⟨htime, hmoved⟩ | ⟨htime, hmoved⟩)
    · exact ⟨Or.inl ⟨rfl, rfl⟩, rfl⟩
    · exact ⟨Or.inr (Or.inl hmoved), htime⟩
    · exact ⟨Or.inr (Or.inr hmoved), htime.symm⟩

/-! ## What the hashes bind -/

section

variable (H : Sha256)

/-- Different triples have different identities. -/
def IdentityBound (b b' : Blobs) : Prop :=
  b ≠ b' → IdentityHash.compute H b ≠ IdentityHash.compute H b'

/-- The chain hash of one link is accepted for no other. -/
def LinkBound (l l' : ChainLink) : Prop :=
  validateChain H (computeChainHash H l) l' = true → l' = l

variable {H}

theorem identityBound_iff {b b' : Blobs}
    (hfree : H.digest b.preimage = H.digest b'.preimage → b.preimage = b'.preimage) :
    IdentityBound H b b' ↔ ¬ (b.MovedTo b' ∨ b'.MovedTo b) := by
  have hsame : IdentityHash.compute H b = IdentityHash.compute H b' ↔
      b = b' ∨ b.MovedTo b' ∨ b'.MovedTo b := by
    rw [← preimage_eq_iff]
    exact ⟨hfree, fun h => congrArg H.digest h⟩
  rw [IdentityBound, ne_eq, ne_eq, hsame]
  constructor
  · intro hbound hmoved
    have hne : b ≠ b' := by
      rintro rfl
      exact hmoved.elim Blobs.not_movedTo_self Blobs.not_movedTo_self
    exact hbound hne (Or.inr hmoved)
  · rintro hmoved hne (rfl | h)
    · exact hne rfl
    · exact hmoved h

theorem linkBound_iff {l l' : ChainLink}
    (hfree : H.digest l.preimage = H.digest l'.preimage → l.preimage = l'.preimage) :
    LinkBound H l l' ↔ ¬ (l.MovedTo l' ∨ l'.MovedTo l) := by
  have hsame : validateChain H (computeChainHash H l) l' = true ↔
      l = l' ∨ l.MovedTo l' ∨ l'.MovedTo l := by
    rw [← chainPreimage_eq_iff, validateChain, decide_eq_true_eq, computeChainHash,
      computeChainHash, Hex.encode_injective.eq_iff]
    exact ⟨fun h => hfree h.symm, fun h => congrArg H.digest h.symm⟩
  rw [LinkBound, hsame]
  constructor
  · intro hbound hmoved
    obtain rfl := hbound (Or.inr hmoved)
    exact hmoved.elim ChainLink.not_movedTo_self ChainLink.not_movedTo_self
  · rintro hmoved (rfl | h)
    · rfl
    · exact absurd h hmoved

variable (H)

/-- Where none of these preimages collide, the hashes bind exactly when no piece has moved. -/
theorem hashes_bind_iff (b b' : Blobs) (l l' : ChainLink)
    (hidentity : H.digest b.preimage = H.digest b'.preimage → b.preimage = b'.preimage)
    (hlink : H.digest l.preimage = H.digest l'.preimage → l.preimage = l'.preimage) :
    (IdentityBound H b b' ∧ LinkBound H l l') ↔
      ¬ (b.MovedTo b' ∨ b'.MovedTo b) ∧ ¬ (l.MovedTo l' ∨ l'.MovedTo l) := by
  rw [identityBound_iff hidentity, linkBound_iff hlink]

end

/-! ## Samples -/

theorem length_zeros : (List.replicate 32 (0 : UInt8)).length = 32 := List.length_replicate

/-- A constitution and capabilities of a letter each, at a first audit head. -/
def sampleBlobs (capabilities : String) : Blobs :=
  ⟨Text.bytes "c", Text.bytes capabilities, ⟨List.replicate 32 0, length_zeros⟩⟩

/-- SHA-256 of two triples and of two links. -/
def sampleSha : Sha256 := Chain.tableSha
  [((sampleBlobs "p").preimage,
      0xed0c122188fb1d03a1b720a249e2110e3a989e133650a8b152b12c136d8bdf85),
    ((sampleBlobs "q").preimage,
      0x3b7b08b65741bc5b62e0fc71bd9fff9973080036ae77c504f9709d09c27df96a),
    ((ChainLink.mk "a" "b" 0).preimage,
      0x680e759006d39c54442cf56b9967104e2971db08f49122ffbd6b63f5c8f7b055),
    ((ChainLink.mk "a" "b" 1).preimage,
      0xc092063a501a560089e9213054bded08e798675585740a92b730b9df6efa9860)]

theorem hashes_bind_iff_sample :
    (IdentityBound sampleSha (sampleBlobs "p") (sampleBlobs "q") ∧
        LinkBound sampleSha ⟨"a", "b", 0⟩ ⟨"a", "b", 1⟩) ↔
      ¬ ((sampleBlobs "p").MovedTo (sampleBlobs "q") ∨
          (sampleBlobs "q").MovedTo (sampleBlobs "p")) ∧
        ¬ ((ChainLink.mk "a" "b" 0).MovedTo ⟨"a", "b", 1⟩ ∨
          (ChainLink.mk "a" "b" 1).MovedTo ⟨"a", "b", 0⟩) := by
  refine hashes_bind_iff sampleSha (sampleBlobs "p") (sampleBlobs "q") ⟨"a", "b", 0⟩
    ⟨"a", "b", 1⟩ ?_ ?_
  · intro h
    revert h
    decide +kernel
  · intro h
    revert h
    decide +kernel

/-- Two different triples and two different links with one hash each. -/
theorem moved_pieces_collide : ∃ (b b' : Blobs) (l l' : ChainLink), b ≠ b' ∧ l' ≠ l ∧
    ∀ H : Sha256, IdentityHash.compute H b = IdentityHash.compute H b' ∧
      validateChain H (computeChainHash H l) l' = true := by
  have hblobs : (Blobs.mk [99, 0, 112] [] ⟨List.replicate 32 0, List.length_replicate⟩).preimage =
      (Blobs.mk [99] [112, 0] ⟨List.replicate 32 0, List.length_replicate⟩).preimage :=
    preimage_eq_iff.mpr (Or.inr (Or.inl ⟨rfl, [112], rfl, rfl⟩))
  have hlinks : (ChainLink.mk "ab" "" 0).preimage = (ChainLink.mk "a" "b" 0).preimage :=
    chainPreimage_eq_iff.mpr (Or.inr (Or.inl ⟨rfl, "b", by decide, by decide, by decide⟩))
  refine ⟨_, _, ⟨"ab", "", 0⟩, ⟨"a", "b", 0⟩, ?_, by decide,
    fun H => ⟨congrArg H.digest hblobs, ?_⟩⟩
  · decide
  · rw [validateChain, decide_eq_true_eq, computeChainHash, computeChainHash, hlinks]

end Hal.Identity

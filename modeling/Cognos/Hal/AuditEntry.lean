/-
# `Cognos.Hal.AuditEntry` — one line of the audit log

The record of `audit_log.rs` with its derived (de)serialiser: what is absent is left out,
what is unknown is ignored.  An entry whose score is a number reads back from its text;
the text of one whose score is not finite has `null` there, and `null` reads as no score.

    read_json          an entry with a finite score reads back
    eq_of_body_eq      the text without the chain hash determines the other fields
-/
import Mathlib
import Cognos.Lib.Codecs

namespace Hal

/-- A single audit log entry. -/
structure AuditEntry (Time : Type) where
  ts : Time
  agent : String
  action : String
  outcome : String
  target : Option String
  halScore : Option Float32
  halLevel : Option String
  intentId : Option Uuid
  reversible : Option Bool
  note : Option String
  errorMessage : Option String
  session : Option String
  /-- Tamper-evident chain hash. -/
  chainHash : String

namespace AuditEntry

variable {Time : Type} (K : Codecs Time)

/-! ## JSON -/

def names : List String :=
  ["ts", "agent", "action", "outcome", "target", "hal_score", "hal_level", "intent_id",
    "reversible", "note", "error_message", "session", "chain_hash"]

def members (e : AuditEntry Time) : List (String × Option Json.Value) :=
  [("ts", some (.str (K.showTime e.ts))), ("agent", some (.str e.agent)),
    ("action", some (.str e.action)), ("outcome", some (.str e.outcome)),
    ("target", e.target.map .str), ("hal_score", e.halScore.map K.f32),
    ("hal_level", e.halLevel.map .str), ("intent_id", e.intentId.map fun id => .str id.text),
    ("reversible", e.reversible.map .bool), ("note", e.note.map .str),
    ("error_message", e.errorMessage.map .str), ("session", e.session.map .str),
    ("chain_hash", some (.str e.chainHash))]

/-- The derived writer. -/
def json (e : AuditEntry Time) : Json.Value := Json.record (e.members K)

/-- The fields, from what was found under each name. -/
def ofSlots : List (Option Json.Value) → Option (AuditEntry Time)
  | [ts, agent, action, outcome, target, halScore, halLevel, intentId, reversible, note,
      errorMessage, session, chainHash] => do
      let ts ← Json.required K.readTime? ts
      let agent ← Json.required Json.Value.asStr? agent
      let action ← Json.required Json.Value.asStr? action
      let outcome ← Json.required Json.Value.asStr? outcome
      let target ← Json.optional Json.Value.asStr? target
      let halScore ← Json.optional K.readF32? halScore
      let halLevel ← Json.optional Json.Value.asStr? halLevel
      let intentId ← Json.optional Uuid.readUuid? intentId
      let reversible ← Json.optional Json.Value.asBool? reversible
      let note ← Json.optional Json.Value.asStr? note
      let errorMessage ← Json.optional Json.Value.asStr? errorMessage
      let session ← Json.optional Json.Value.asStr? session
      let chainHash ← Json.required Json.Value.asStr? chainHash
      some
        { ts, agent, action, outcome, target, halScore, halLevel, intentId, reversible, note,
          errorMessage, session, chainHash }
  | _ => none

/-- The derived reader. -/
def read (v : Json.Value) : Option (AuditEntry Time) := (Json.slots names v).bind (ofSlots K)

/-- `serde_json::to_string(&entry)`. -/
def line (e : AuditEntry Time) : String := (e.json K).print

/-- `serde_json::from_str(line)`. -/
def readLine (s : String) : Option (AuditEntry Time) := (Json.parseText s).bind (read K)

/-! ## Reading back -/

/-- The score is a number, or there is none. -/
def FiniteScore (e : AuditEntry Time) : Prop := ∀ x ∈ e.halScore, x.isFinite = true

theorem optional_str (s : Option String) :
    Json.optional Json.Value.asStr? (s.map .str) = some s := by
  cases s <;> rfl

theorem optional_bool (b : Option Bool) :
    Json.optional Json.Value.asBool? (b.map .bool) = some b := by
  cases b <;> rfl

theorem optional_uuid (u : Option Uuid) :
    Json.optional Uuid.readUuid? (u.map fun id => .str id.text) = some u := by
  cases u with
  | none => rfl
  | some id => simp [Json.optional, Uuid.readUuid?, Json.Value.asStr?]

theorem optional_score {e : AuditEntry Time} (h : e.FiniteScore) :
    Json.optional K.readF32? (e.halScore.map K.f32) = some e.halScore := by
  cases hs : e.halScore with
  | none => rfl
  | some x =>
      exact Json.optional_of_read (K.readF32?_f32 (h x hs)) rfl

/-- The members with another value for the score. -/
def scored (e : AuditEntry Time) (score : Option Json.Value) : List (String × Option Json.Value) :=
  (e.members K).set 5 ("hal_score", score)

theorem scored_self (e : AuditEntry Time) : e.scored K (e.halScore.map K.f32) = e.members K := rfl

theorem nodup_scored (e : AuditEntry Time) (score : Option Json.Value) :
    ((e.scored K score).map Prod.fst).Nodup := by
  have hnames : (e.scored K score).map Prod.fst = names := rfl
  rw [hnames]
  decide

/-- Whatever stands for the score, if it reads as `x` the entry reads with `x`. -/
theorem read_scored {e : AuditEntry Time} {score : Option Json.Value} {x : Option Float32}
    (h : Json.optional K.readF32? score = some x) :
    read K (Json.record (e.scored K score)) = some { e with halScore := x } := by
  have hslots : Json.slots names (Json.record (e.scored K score))
      = some ((e.scored K score).map Prod.snd) :=
    Json.slots_record_self (e.scored K score) (e.nodup_scored K score)
  rw [read, hslots, Option.bind_some]
  show ofSlots K [_, _, _, _, _, _, _, _, _, _, _, _, _] = _
  simp only [ofSlots, Json.required, Codecs.readTime?_showTime, Json.Value.asStr?, optional_str,
    optional_bool, optional_uuid, h, Option.bind_eq_bind, Option.bind_some]

/-- An entry with a finite score reads back. -/
theorem read_json {e : AuditEntry Time} (h : e.FiniteScore) : read K (e.json K) = some e := by
  have hread := read_scored K (e := e) (optional_score K h)
  rw [scored_self] at hread
  exact hread

theorem readLine_line {e : AuditEntry Time} (h : e.FiniteScore) :
    readLine K (e.line K) = some e := by
  rw [readLine, line, Json.parseText_print, Option.bind_some, read_json K h]

/-- An entry that is read has a chain hash. -/
theorem hash_of_ofSlots {ss : List (Option Json.Value)} {e : AuditEntry Time}
    (h : ofSlots K ss = some e) : ss.getLast? ≠ some none := by
  unfold ofSlots at h
  split at h
  · next chainHash =>
      intro hlast
      have hnone : chainHash = none := Option.some.inj hlast
      subst hnone
      -- the twelve fields before the hash
      iterate 12 obtain ⟨_, -, h⟩ := Option.bind_eq_some_iff.mp h
      obtain ⟨_, hhash, -⟩ := Option.bind_eq_some_iff.mp h
      cases hhash
  · cases h

/-- A record without a chain hash is not an entry. -/
theorem readLine_of_no_hash {ms : List (String × Option Json.Value)}
    (hnodup : (ms.map Prod.fst).Nodup) (hhash : ms.lookup "chain_hash" = none) :
    readLine K (Json.record ms).print = none := by
  rw [readLine, Json.parseText_print, Option.bind_some, read, Json.slots_record _ ms hnodup,
    Option.bind_some]
  cases hread : ofSlots K (names.map fun n => (ms.lookup n).join) with
  | none => rfl
  | some e =>
      have hlast : (names.map fun n => (ms.lookup n).join).getLast?
          = some ((ms.lookup "chain_hash").join) := rfl
      rw [hhash] at hlast
      exact absurd hlast (hash_of_ofSlots K hread)

/-! ## The text that is hashed -/

/-- The entry with an empty chain hash. -/
def withoutHash (e : AuditEntry Time) : AuditEntry Time := { e with chainHash := "" }

/-- The text of the entry without its hash. -/
def body (e : AuditEntry Time) : String := e.withoutHash.line K

theorem score_eq_of_line_eq {e f : AuditEntry Time} (h : e.line K = f.line K) :
    e.halScore.map K.f32 = f.halScore.map K.f32 := by
  have hlook := Json.lookup_eq_of_print_eq (e.nodup_scored K _) (f.nodup_scored K _) h "hal_score"
  have hkey : ∀ e : AuditEntry Time,
      ((e.members K).lookup "hal_score").join = e.halScore.map K.f32 := by
    intro e
    have hmem : ("hal_score", e.halScore.map K.f32) ∈ e.members K := by simp [members]
    have hlook := Json.lookup_of_mem (e.nodup_scored K (e.halScore.map K.f32)) hmem
    rw [scored_self] at hlook
    exact congrArg Option.join hlook
  rw [scored_self, scored_self, hkey, hkey] at hlook
  exact hlook

/-- Text of a finite score is text of a finite score only. -/
theorem FiniteScore.of_line_eq {e f : AuditEntry Time} (he : e.FiniteScore)
    (h : e.line K = f.line K) : f.FiniteScore := by
  intro y hy
  by_contra hinf
  have hscore := score_eq_of_line_eq K h
  rw [Option.mem_def.mp hy, Option.map_some, Codecs.f32, if_neg hinf] at hscore
  cases hx : e.halScore with
  | none =>
      rw [hx] at hscore
      cases hscore
  | some x =>
      rw [hx, Option.map_some, Codecs.f32, if_pos (he x hx)] at hscore
      cases hscore

/-- The text determines an entry whose score is finite. -/
theorem eq_of_line_eq {e f : AuditEntry Time} (he : e.FiniteScore) (h : e.line K = f.line K) :
    e = f := by
  have hread := readLine_line K he
  rw [h, readLine_line K (he.of_line_eq K h)] at hread
  exact (Option.some.inj hread).symm

/-- The text without the hash, and the hash, determine it. -/
theorem eq_of_body_eq {e f : AuditEntry Time} (he : e.FiniteScore) (hb : e.body K = f.body K)
    (hh : e.chainHash = f.chainHash) : e = f := by
  have hwithout : e.withoutHash = f.withoutHash := eq_of_line_eq K he hb
  cases e
  cases f
  simp only [withoutHash, mk.injEq] at hwithout hh ⊢
  simp only [hwithout, hh, and_self]

end AuditEntry

end Hal

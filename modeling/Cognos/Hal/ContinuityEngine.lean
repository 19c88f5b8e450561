/-
# `Cognos.Hal.ContinuityEngine` — snapshots that survive

`continuity_engine.rs`: a snapshot is written to a new file beside the target, synced and renamed
over the target, and restored from there.  Any of these calls may fail or be the last one before a
crash, and what is written may stop half-way; the target only changes by the rename.  What is
restored is read by `serde_json`, which refuses what is nested too deep, and reads a number to the
nearest it can tell.

    Survives            what a write, and a crash in it, has to leave
    writeAtomic_cases   what a write can do
    readsBack_iff       when a snapshot is read back as it was
    survives_iff        the snapshots that survive, whatever fails

A call does what it does as a whole, but for a write, and a file renamed stays so.  A path without
a parent is one that names no file.
-/
import Mathlib
import Cognos.Lib.Json.Pretty
import Cognos.Lib.Run
import Cognos.Hal.ChainExport

namespace Json

/-! ## The numbers of a value -/

mutual

/-- A value with its numbers read again. -/
def Value.mapNums (f : NumLit → NumLit) : Value → Value
  | .null => .null
  | .bool b => .bool b
  | .num n => .num (f n)
  | .str s => .str s
  | .arr vs => .arr (elemMapNums f vs)
  | .obj fs => .obj (fieldMapNums f fs)

def elemMapNums (f : NumLit → NumLit) : List Value → List Value
  | [] => []
  | v :: vs => v.mapNums f :: elemMapNums f vs

def fieldMapNums (f : NumLit → NumLit) : List (String × Value) → List (String × Value)
  | [] => []
  | (k, v) :: fs => (k, v.mapNums f) :: fieldMapNums f fs

end

mutual

/-- A value is as it was when its numbers are. -/
theorem Value.mapNums_eq_iff (f : NumLit → NumLit) (v : Value) :
    v.mapNums f = v ↔ v.numsAll (fun n => decide (f n = n)) = true := by
  cases v with
  | null => simp [Value.mapNums, Value.numsAll]
  | bool b => simp [Value.mapNums, Value.numsAll]
  | num n => simp [Value.mapNums, Value.numsAll]
  | str s => simp [Value.mapNums, Value.numsAll]
  | arr vs =>
      rw [Value.mapNums, Value.numsAll, Value.arr.injEq]
      exact elemMapNums_eq_iff f vs
  | obj fs =>
      rw [Value.mapNums, Value.numsAll, Value.obj.injEq]
      exact fieldMapNums_eq_iff f fs

theorem elemMapNums_eq_iff (f : NumLit → NumLit) (vs : List Value) :
    elemMapNums f vs = vs ↔ elemNumsAll (fun n => decide (f n = n)) vs = true := by
  cases vs with
  | nil => simp [elemMapNums, elemNumsAll]
  | cons v vs =>
      rw [elemMapNums, elemNumsAll, List.cons.injEq, Bool.and_eq_true, Value.mapNums_eq_iff f v,
        elemMapNums_eq_iff f vs]

theorem fieldMapNums_eq_iff (f : NumLit → NumLit) (fs : List (String × Value)) :
    fieldMapNums f fs = fs ↔ fieldNumsAll (fun n => decide (f n = n)) fs = true := by
  cases fs with
  | nil => simp [fieldMapNums, fieldNumsAll]
  | cons field fs =>
      obtain ⟨k, v⟩ := field
      rw [fieldMapNums, fieldNumsAll, List.cons.injEq, Bool.and_eq_true, Prod.mk.injEq,
        Value.mapNums_eq_iff f v, fieldMapNums_eq_iff f fs]
      simp

end

end Json

namespace Hal.Continuity

/-! ## Snapshots -/

variable {Time : Type}

/-- A snapshot of the governed state at a moment in time. -/
structure Snapshot (Time : Type) where
  auditHead : Chain.Hash
  trustState : Json.Value
  reputationState : Json.Value
  autonomyLevel : String
  timestamp : Time

/-- How times and numbers are read, and the text of an error. -/
structure Reader (Time : Type) where
  codecs : Codecs Time
  /-- The literal of the number a literal is read as. -/
  reread : Json.NumLit → Json.NumLit
  errorText : List UInt8 → String

inductive ContinuityError
  | notFound
  | read (e : String)
  | deserialize (e : String)
  | serialize (e : String)
  | write (e : String)
  | path (e : String)
deriving DecidableEq

namespace Snapshot

variable (R : Reader Time)

def names : List String :=
  ["audit_head", "trust_state", "reputation_state", "autonomy_level", "timestamp"]

def members (s : Snapshot Time) : List (String × Option Json.Value) :=
  [("audit_head", some (.ofBytes s.auditHead.val)), ("trust_state", some s.trustState),
    ("reputation_state", some s.reputationState), ("autonomy_level", some (.str s.autonomyLevel)),
    ("timestamp", some (.str (R.codecs.showTime s.timestamp)))]

/-- `serde_json::to_vec_pretty(snapshot)`; nothing in a snapshot makes it fail. -/
def toVecPretty (s : Snapshot Time) : List UInt8 :=
  Text.bytes (Json.record (s.members R)).pretty

/-- A `Value` asked for inside of the snapshot. -/
def readTable (v : Json.Value) : Option Json.Value :=
  (v.admitted R.codecs.inRange 126).map (Json.Value.mapNums R.reread)

def ofSlots : List (Option Json.Value) → Option (Snapshot Time)
  | [auditHead, trustState, reputationState, autonomyLevel, timestamp] => do
      let auditHead ← Json.required Chain.ChainedEntry.asHash? auditHead
      let trustState ← Json.required (readTable R) trustState
      let reputationState ← Json.required (readTable R) reputationState
      let autonomyLevel ← Json.required Json.Value.asStr? autonomyLevel
      let timestamp ← Json.required R.codecs.readTime? timestamp
      some { auditHead, trustState, reputationState, autonomyLevel, timestamp }
  | _ => none

/-- `serde_json::from_slice(&bytes)`. -/
def fromSlice (bytes : List UInt8) : Except ContinuityError (Snapshot Time) :=
  match ((Json.recordFromSlice names bytes).bind (Json.slots names)).bind (ofSlots R) with
  | some s => .ok s
  | none => .error (.deserialize (R.errorText bytes))

/-- A table is read back as it was: it is not nested too deep, and each of its numbers is in range
and read as itself. -/
def TableReadsBack (v : Json.Value) : Prop :=
  (v.depth ≤ 126 ∧ v.numsAll R.codecs.inRange = true) ∧
    v.numsAll (fun n => decide (R.reread n = n)) = true

/-- Both tables are. -/
def ReadsBack (s : Snapshot Time) : Prop :=
  TableReadsBack R s.trustState ∧ TableReadsBack R s.reputationState

theorem readTable_eq_iff (v : Json.Value) : readTable R v = some v ↔ TableReadsBack R v := by
  rw [readTable, Json.Value.admitted, TableReadsBack, ← Json.Value.mapNums_eq_iff]
  split
  · next h => simp [h]
  · next h => simp [h]

/-- A snapshot comes back from its text exactly when its tables do. -/
theorem readsBack_iff (s : Snapshot Time) :
    fromSlice R (s.toVecPretty R) = .ok s ↔ s.ReadsBack R := by
  have hnodup : ((s.members R).map Prod.fst).Nodup := by
    show names.Nodup
    decide
  have hslots : Json.slots names (Json.record (s.members R)) =
      some ((s.members R).map Prod.snd) := Json.slots_record_self (s.members R) hnodup
  have hread : (Json.recordFromSlice names (s.toVecPretty R)).bind (Json.slots names) =
      some ((s.members R).map Prod.snd) := by
    have hvalue : Json.fromSlice (s.toVecPretty R) = some (Json.record (s.members R)) := by
      rw [toVecPretty, Json.fromSlice, Text.fromUtf8?_bytes, Option.bind_some,
        Json.parseText_pretty]
    rw [Json.recordFromSlice_of_some hvalue, Option.bind_some, hslots]
  have htime : R.codecs.readTime? (.str (R.codecs.showTime s.timestamp)) = some s.timestamp :=
    R.codecs.readTime_showTime s.timestamp
  rw [fromSlice, hread, Option.bind_some, ReadsBack, ← readTable_eq_iff, ← readTable_eq_iff]
  show (match ofSlots R [_, _, _, _, _] with | some s => _ | none => _) = _ ↔ _
  simp only [ofSlots, Json.required, Chain.ChainedEntry.asHash?_ofBytes, Json.Value.asStr?, htime,
    Option.bind_eq_bind, Option.bind_some]
  cases htrust : readTable R s.trustState with
  | none => simp
  | some trust =>
      cases hreputation : readTable R s.reputationState with
      | none => simp
      | some reputation =>
          simp only [Option.bind_some, Except.ok.injEq, Option.some.injEq]
          constructor
          · intro h
            exact ⟨congrArg Snapshot.trustState h, congrArg Snapshot.reputationState h⟩
          · rintro ⟨rfl, rfl⟩
            rfl

end Snapshot

/-! ## The disk -/

/-- The name of a file: text, or bytes that are no text. -/
inductive OsName
  | text (name : String)
  | bytes (name : List UInt8)
deriving DecidableEq

/-- `to_str()`. -/
def OsName.toStr : OsName → Option String
  | .text name => some name
  | .bytes _ => none

variable {Dir : Type} [DecidableEq Dir]

/-- Files, by directory and name. -/
abbrev Disk (Dir : Type) := Dir × OsName → Option (List UInt8)

def Disk.put (d : Disk Dir) (path : Dir × OsName) (content : List UInt8) : Disk Dir :=
  Function.update d path (some content)

/-- `fs::rename`. -/
def Disk.rename (d : Disk Dir) (source target : Dir × OsName) : Disk Dir :=
  Function.update (Function.update d source none) target (d source)

/-- What a call comes to. -/
inductive Call
  | ok
  | fails (e : String)
  | crashes
deriving DecidableEq

/-- What each call of a write comes to, how much of the file is written when not all of it is, and
whether a crash follows the rename. -/
structure WriteOutcome where
  createDir : Call
  create : Call
  write : Call
  written : Nat
  sync : Call
  rename : Call
  crashesAfter : Bool

/-- What is reported, unless there was a crash. -/
abbrev Report := Option (Except ContinuityError Unit)

/-- What follows a call that succeeds; an error is reported. -/
def Call.andThen (c : Call) (d : Disk Dir) (next : Report × Disk Dir) : Report × Disk Dir :=
  match c with
  | .ok => next
  | .fails e => (some (.error (.write e)), d)
  | .crashes => (none, d)

/-! ## The engine -/

/-- The engine, with the parent and the name of its snapshot's path. -/
structure ContinuityEngine (Dir : Type) where
  snapshotPath : Option (Dir × OsName)

/-- `.<name>.<id>.tmp`. -/
def tmpName (name : OsName) (id : String) : OsName :=
  .text ("." ++ name.toStr.getD "snapshot" ++ "." ++ id ++ ".tmp")

/-- A snapshot to be written, and the id of its temporary file. -/
structure Write (Time : Type) where
  snapshot : Snapshot Time
  id : String

namespace ContinuityEngine

variable (R : Reader Time) (E : ContinuityEngine Dir)

/-- Atomic write: to a temporary file in the same directory, synced, then renamed over the
target. -/
def writeAtomic (o : WriteOutcome) (w : Write Time) (d : Disk Dir) : Report × Disk Dir :=
  match E.snapshotPath with
  | none => (some (.error (.path "snapshot path has no parent")), d)
  | some target =>
      let tmp := (target.1, tmpName target.2 w.id)
      let bytes := w.snapshot.toVecPretty R
      let written := d.put tmp bytes
      o.createDir.andThen d <|
        o.create.andThen d <|
          o.write.andThen (d.put tmp (bytes.take o.written)) <|
            o.sync.andThen written <|
              o.rename.andThen written
                (if o.crashesAfter then none else some (.ok ()), written.rename tmp target)

def writeSnapshot (o : WriteOutcome) (w : Write Time) (d : Disk Dir) : Report × Disk Dir :=
  E.writeAtomic R o w d

/-- Restore the latest snapshot from disk. -/
def restore (d : Disk Dir) : Except ContinuityError (Snapshot Time) :=
  match E.snapshotPath.bind d with
  | none => .error .notFound
  | some bytes => Snapshot.fromSlice R bytes

end ContinuityEngine

/-! ## What a write can do -/

theorem tmpName_ne (name : OsName) (id : String) : tmpName name id ≠ name := by
  intro h
  cases name with
  | bytes bs => cases h
  | text s =>
      have hlen := congrArg String.length (OsName.text.inj h)
      simp only [OsName.toStr, Option.getD_some, String.length_append] at hlen
      have hdot : ".".length = 1 := rfl
      omega

theorem Disk.put_of_ne {d : Disk Dir} {path path' : Dir × OsName} (h : path ≠ path')
    (content : List UInt8) : d.put path' content path = d path :=
  Function.update_of_ne h ..

/-- The new bytes are in place, and no error is reported; or the old ones are, and it is not
reported that the new ones are. -/
def Settled (d : Disk Dir) (target : Dir × OsName) (bytes : List UInt8) (r : Report × Disk Dir) :
    Prop :=
  (r.2 target = some bytes ∧ (r.1 = none ∨ r.1 = some (.ok ()))) ∨
    (r.2 target = d target ∧ r.1 ≠ some (.ok ()))

omit [DecidableEq Dir] in
/-- A call before which the old bytes are in place. -/
theorem Settled.andThen {d d' : Disk Dir} {target : Dir × OsName} {bytes : List UInt8}
    {next : Report × Disk Dir} (h : Settled d target bytes next) (hd : d' target = d target)
    (c : Call) : Settled d target bytes (c.andThen d' next) := by
  cases c with
  | ok => exact h
  | fails e => exact Or.inr ⟨hd, by simp [Call.andThen]⟩
  | crashes => exact Or.inr ⟨hd, by simp [Call.andThen]⟩

namespace ContinuityEngine

variable (R : Reader Time)

theorem writeAtomic_cases (target : Dir × OsName) (o : WriteOutcome) (w : Write Time)
    (d : Disk Dir) :
    Settled d target (w.snapshot.toVecPretty R) (writeAtomic R ⟨some target⟩ o w d) := by
  have hne : target ≠ (target.1, tmpName target.2 w.id) :=
    fun h => tmpName_ne target.2 w.id (congrArg Prod.snd h).symm
  have hrenamed : Settled d target (w.snapshot.toVecPretty R)
      (if o.crashesAfter then none else some (.ok ()),
        (d.put (target.1, tmpName target.2 w.id) (w.snapshot.toVecPretty R)).rename
          (target.1, tmpName target.2 w.id) target) := by
    refine Or.inl ⟨?_, ?_⟩
    · dsimp only
      rw [Disk.rename, Function.update_self, Disk.put, Function.update_self]
    · dsimp only
      split
      · exact Or.inl rfl
      · exact Or.inr rfl
  rw [writeAtomic]
  dsimp only
  refine Settled.andThen ?_ rfl _
  refine Settled.andThen ?_ rfl _
  refine Settled.andThen ?_ (Disk.put_of_ne hne _) _
  refine Settled.andThen ?_ (Disk.put_of_ne hne _) _
  exact hrenamed.andThen (Disk.put_of_ne hne _) _

/-! ## What survives -/

variable (E : ContinuityEngine Dir)

def step (d : Disk Dir) (attempt : Write Time × WriteOutcome) : Disk Dir :=
  (E.writeSnapshot R attempt.2 attempt.1 d).2

/-- What a write has to leave: the new snapshot if it reports success, what was there before if it
reports an error, and one of the two if there is a crash. -/
def Survives (d : Disk Dir) (attempt : Write Time × WriteOutcome) : Prop :=
  match (E.writeSnapshot R attempt.2 attempt.1 d).1 with
  | some (.ok ()) => E.restore R (E.step R d attempt) = .ok attempt.1.snapshot
  | some (.error _) => E.restore R (E.step R d attempt) = E.restore R d
  | none => E.restore R (E.step R d attempt) = E.restore R d ∨
      E.restore R (E.step R d attempt) = .ok attempt.1.snapshot

/-- A disk with a previous snapshot, or none, at the target. -/
def start (target : Dir × OsName) (files : Disk Dir) (previous : Option (Snapshot Time)) :
    Disk Dir :=
  Function.update files target (previous.map (Snapshot.toVecPretty R))

/-- What has to be restored of a previous snapshot. -/
def kept : Option (Snapshot Time) → Except ContinuityError (Snapshot Time)
  | none => .error .notFound
  | some s => .ok s

omit [DecidableEq Dir] in
theorem restore_eq {d : Disk Dir} {target : Dir × OsName} {s : Snapshot Time}
    (h : d target = some (s.toVecPretty R)) :
    restore R ⟨some target⟩ d = Snapshot.fromSlice R (s.toVecPretty R) := by
  rw [restore, Option.bind_some, h]

omit [DecidableEq Dir] in
theorem restore_congr {d d' : Disk Dir} {target : Dir × OsName} (h : d' target = d target) :
    restore R ⟨some target⟩ d' = restore R ⟨some target⟩ d := by
  rw [restore, restore, Option.bind_some, Option.bind_some, h]

/-- A snapshot that reads back survives on every disk. -/
theorem survives_of_readsBack (target : Dir × OsName) (d : Disk Dir)
    (attempt : Write Time × WriteOutcome) (h : attempt.1.snapshot.ReadsBack R) :
    Survives R ⟨some target⟩ d attempt := by
  have hsettled := writeAtomic_cases R target attempt.2 attempt.1 d
  have hnew : (step R ⟨some target⟩ d attempt) target =
      some (attempt.1.snapshot.toVecPretty R) →
      restore R ⟨some target⟩ (step R ⟨some target⟩ d attempt) = .ok attempt.1.snapshot := by
    intro hbytes
    rw [restore_eq R hbytes]
    exact (Snapshot.readsBack_iff R _).mpr h
  rw [Survives]
  rcases hsettled with ⟨hbytes, hreport⟩ | ⟨hbytes, hreport⟩
  · split
    · exact hnew hbytes
    · next e herror =>
        rw [← writeSnapshot, herror] at hreport
        rcases hreport with hnone | hok
        · cases hnone
        · cases hok
    · exact Or.inr (hnew hbytes)
  · split
    · next hok => exact absurd hok hreport
    · exact restore_congr R hbytes
    · exact Or.inl (restore_congr R hbytes)

/-- A write whose calls all succeed. -/
def WriteOutcome.succeeds : WriteOutcome := ⟨.ok, .ok, .ok, 0, .ok, .ok, false⟩

/-- A snapshot that is written and survives reads back. -/
theorem readsBack_of_survives {target : Dir × OsName} {d : Disk Dir} {w : Write Time}
    (h : Survives R ⟨some target⟩ d (w, WriteOutcome.succeeds)) : w.snapshot.ReadsBack R := by
  have hbytes : (step R ⟨some target⟩ d (w, WriteOutcome.succeeds)) target =
      some (w.snapshot.toVecPretty R) := by
    show Disk.rename _ _ _ _ = _
    rw [Disk.rename, Function.update_self, Disk.put, Function.update_self]
  have hrestore : restore R ⟨some target⟩ (step R ⟨some target⟩ d (w, WriteOutcome.succeeds)) =
      .ok w.snapshot := h
  rw [restore_eq R hbytes] at hrestore
  exact (Snapshot.readsBack_iff R _).mp hrestore

theorem restore_start_iff (target : Dir × OsName) (files : Disk Dir)
    (previous : Option (Snapshot Time)) :
    restore R ⟨some target⟩ (start R target files previous) = kept previous ↔
      ∀ s ∈ previous, s.ReadsBack R := by
  rw [restore, Option.bind_some, start, Function.update_self]
  cases previous with
  | none => simp [kept]
  | some s => simpa [kept] using Snapshot.readsBack_iff R s

/-- Whatever is on the disk, the previous snapshot and those written after it survive all ways
their writes can go exactly when each of them reads back. -/
theorem survives_iff (target : Dir × OsName) (files : Disk Dir)
    (previous : Option (Snapshot Time)) (writes : List (Write Time)) :
    (restore R ⟨some target⟩ (start R target files previous) = kept previous ∧
      ∀ attempts : List (Write Time × WriteOutcome), attempts.map Prod.fst = writes →
        Run.Along (step R ⟨some target⟩) (Survives R ⟨some target⟩)
          (start R target files previous) attempts) ↔
      (∀ s ∈ previous, s.ReadsBack R) ∧ ∀ w ∈ writes, w.snapshot.ReadsBack R := by
  rw [restore_start_iff]
  refine and_congr_right fun _ => ⟨?_, ?_⟩
  · intro h w hw
    have hrun := h (writes.map fun w => (w, WriteOutcome.succeeds)) (by simp [Function.comp_def])
    rw [Run.along_iff_split] at hrun
    obtain ⟨past, rest, rfl⟩ := List.append_of_mem hw
    rw [List.map_append, List.map_cons] at hrun
    exact readsBack_of_survives R (hrun _ _ _ rfl)
  · rintro h attempts rfl
    refine Run.along_of_forall _ fun attempt hattempt d => ?_
    exact survives_of_readsBack R target d attempt (h _ (List.mem_map_of_mem hattempt))

end ContinuityEngine

/-! ## A table that is nested too deep -/

/-- Arrays within arrays. -/
def nested : Nat → Json.Value
  | 0 => .null
  | n + 1 => .arr [nested n]

theorem depth_nested (n : Nat) : (nested n).depth = n := by
  induction n with
  | zero => rfl
  | succ n ih => rw [nested, Json.Value.depth, Json.elemDepth, ih, Json.elemDepth, Nat.max_zero]

/-- Literals are read as themselves. -/
def sampleReader : Reader { s : String // Json.escapedLen s ≤ 40 } :=
  ⟨Codecs.sample, id, fun _ => ""⟩

/-- A snapshot with this trust table. -/
def sampleSnapshot (trustState : Json.Value) :
    Snapshot { s : String // Json.escapedLen s ≤ 40 } where
  auditHead := ⟨List.replicate 32 0, List.length_replicate⟩
  trustState := trustState
  reputationState := .obj []
  autonomyLevel := "Supervised"
  timestamp := Codecs.midnight

namespace ContinuityEngine

/-- It is written without an error, and the one before it is gone. -/
theorem nested_snapshot_lost :
    ¬ ∀ (previous new : Snapshot { s : String // Json.escapedLen s ≤ 40 }),
    restore sampleReader ⟨some ("/var/lib/cognos", .text "snapshot.json")⟩
        (start sampleReader ("/var/lib/cognos", .text "snapshot.json") (fun _ => none)
          (some previous)) = .ok previous →
      Survives sampleReader ⟨some ("/var/lib/cognos", .text "snapshot.json")⟩
        (start sampleReader ("/var/lib/cognos", .text "snapshot.json") (fun _ => none)
          (some previous)) (⟨new, "0"⟩, WriteOutcome.succeeds) := by
  intro h
  have hprevious : (sampleSnapshot (.obj [])).ReadsBack sampleReader := by
    refine ⟨⟨⟨by decide, rfl⟩, rfl⟩, ⟨⟨by decide, rfl⟩, rfl⟩⟩
  have hnew := readsBack_of_survives sampleReader
    (h (sampleSnapshot (.obj [])) (sampleSnapshot (nested 127))
      ((restore_start_iff sampleReader _ _ _).mpr fun s hs => Option.some.inj hs ▸ hprevious))
  have hdepth := hnew.1.1.1
  rw [show (sampleSnapshot (nested 127)).trustState = nested 127 from rfl, depth_nested] at hdepth
  exact absurd hdepth (by decide)

end ContinuityEngine

end Hal.Continuity

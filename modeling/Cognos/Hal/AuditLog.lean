/-
# `Cognos.Hal.AuditLog` — the audit log and its files

`audit_log.rs`.  The log keeps entries in memory until it flushes them: fifty of them, or
a tenth of a second after the last flush.  Each entry carries the hash of the one before
it and of its own text; the hash of the last entry stands in a file of its own.  A log
file beyond its size limit is set aside at the next flush, a wiped one at once.

What the packages around it do is in `LogEnv`.  Instants are in nanoseconds.  Every disk
operation succeeds, so the writer always writes to the file of the log's name.
-/
import Mathlib
import Cognos.Hal.AuditEntry
import Cognos.Lib.HashChain
import Cognos.Lib.Sha256

namespace Hal

def maxLogSizeBytes : Nat := 50 * 1024 * 1024

def maxRotatedFiles : Nat := 5

/-- `FLUSH_INTERVAL`. -/
def auditFlushInterval : Nat := 100 * 1000000

def flushEntryCount : Nat := 50

def initialHashInput : String := "cognos-audit-v1"

/-- The packages the log leans on. -/
structure LogEnv (Time : Type) where
  codecs : Codecs Time
  sha : Sha256
  /-- What is said of a line that is not an entry. -/
  jsonError : String → String
  /-- What is said of a file that is not UTF-8. -/
  readError : List UInt8 → String

namespace LogEnv

variable {Time : Type} (E : LogEnv Time)

/-- `hex::encode(Sha256::digest(s.as_bytes()))`. -/
def hash (s : String) : String := E.sha.hex (Text.bytes s)

/-- How the entries of a log are linked. -/
def chain : HashChain (AuditEntry Time) String String where
  body := AuditEntry.body E.codecs
  hash := AuditEntry.chainHash
  link previous json := E.hash (previous ++ json)
  genesis := E.hash initialHashInput

end LogEnv

/-! ## State -/

/-- The files beside the log: `audit.log`, `audit.log.1` and on, `audit.wiped`, `audit.chain`. -/
structure LogDir where
  log : List UInt8
  rotated : Nat → Option (List UInt8)
  wiped : Option (List UInt8)
  chain : Option (List UInt8)

/-- `Inner`, with the files it writes to. -/
structure AuditLog (Time : Type) where
  pending : List (AuditEntry Time)
  lastFlush : Nat
  previousHash : String
  dir : LogDir

/-- What `append` is given, and the time it reads. -/
structure Appended (Time : Type) where
  ts : Time
  agent : String
  action : String
  outcome : String
  target : Option String
  halScore : Option Float32
  halLevel : Option String
  intentId : Option Uuid
  reversible : Option Bool
  note : Option String
  session : Option String

structure AuditFilter (Time : Type) where
  agent : Option String
  action : Option String
  since : Option Time
  intentId : Option Uuid
  halLevel : Option String
  targetContains : Option String

structure VerifyResult where
  valid : Bool
  brokenAt : Option Nat
  error : Option String
  deriving DecidableEq

variable {Time : Type} (E : LogEnv Time)

namespace LogDir

/-- `load_chain_tip`. -/
def loadChainTip (d : LogDir) : String :=
  match d.chain.bind Text.fromUtf8? with
  | some s => if Text.trim s = "" then E.chain.genesis else s
  | none => E.chain.genesis

/-- The file set aside under number `i` moves up by one. -/
def shift (rotated : Nat → Option (List UInt8)) (i : Nat) : Nat → Option (List UInt8) :=
  match rotated i with
  | none => rotated
  | some c =>
      if maxRotatedFiles < i + 1 then Function.update rotated i none
      else Function.update (Function.update rotated (i + 1) (some c)) i none

/-- `rotate_static`. -/
def rotate (d : LogDir) : LogDir :=
  { d with
    rotated := Function.update ([4, 3, 2, 1].foldl shift d.rotated) 1 (some d.log)
    log := [] }

end LogDir

namespace AuditLog

/-! ## Writing -/

/-- `open_at`. -/
def openAt (d : LogDir) (now : Nat) : AuditLog Time where
  pending := []
  lastFlush := now
  previousHash := d.loadChainTip E
  dir := d

/-- The entry for an action, without its hash. -/
def entry (a : Appended Time) : AuditEntry Time where
  ts := a.ts
  agent := a.agent
  action := a.action
  outcome := a.outcome
  target := a.target
  halScore := a.halScore
  halLevel := a.halLevel
  intentId := a.intentId
  reversible := a.reversible
  note := a.note
  errorMessage := none
  session := a.session
  chainHash := ""

/-- `build_entry`: the entry, and the log with its hash. -/
def buildEntry (a : Appended Time) (l : AuditLog Time) : AuditEntry Time × AuditLog Time :=
  let chainHash := E.hash (l.previousHash ++ (entry a).line E.codecs)
  ({ entry a with chainHash := chainHash }, { l with previousHash := chainHash })

/-- The lines of entries, one after the other. -/
def fileOf (es : List (AuditEntry Time)) : List UInt8 :=
  Text.unlines (es.map (AuditEntry.line E.codecs))

/-- A flush has something to write and finds the file beyond the limit. -/
def Rotates (l : AuditLog Time) : Prop := l.pending ≠ [] ∧ maxLogSizeBytes < l.dir.log.length

/-- `flush_inner`. -/
def flushInner (now : Nat) (l : AuditLog Time) : AuditLog Time :=
  if l.pending.isEmpty then l
  else
    let dir := if maxLogSizeBytes < l.dir.log.length then l.dir.rotate else l.dir
    { pending := []
      lastFlush := now
      previousHash := l.previousHash
      dir :=
        { dir with
          log := dir.log ++ fileOf E l.pending
          chain := some (Text.bytes l.previousHash) } }

/-- The second half of `append`: the entry goes to the others, and they may all go to disk. -/
def push (e : AuditEntry Time) (seen now : Nat) (l : AuditLog Time) : AuditLog Time :=
  let l := { l with pending := l.pending ++ [e] }
  if flushEntryCount ≤ l.pending.length ∨ auditFlushInterval ≤ seen - l.lastFlush then
    flushInner E now l
  else l

/-- A push finds that it is time to flush. -/
def Due (l : AuditLog Time) (seen : Nat) : Prop :=
  flushEntryCount ≤ l.pending.length + 1 ∨ auditFlushInterval ≤ seen - l.lastFlush

theorem push_of_due {l : AuditLog Time} {seen : Nat} (h : l.Due seen) (e : AuditEntry Time)
    (now : Nat) :
    push E e seen now l = flushInner E now { l with pending := l.pending ++ [e] } := by
  have hlen : (l.pending ++ [e]).length = l.pending.length + 1 := List.length_append
  rw [push]
  show (if flushEntryCount ≤ (l.pending ++ [e]).length ∨ _ then _ else _) = _
  rw [hlen]
  exact if_pos h

theorem push_of_not_due {l : AuditLog Time} {seen : Nat} (h : ¬ l.Due seen) (e : AuditEntry Time)
    (now : Nat) : push E e seen now l = { l with pending := l.pending ++ [e] } := by
  have hlen : (l.pending ++ [e]).length = l.pending.length + 1 := List.length_append
  rw [push]
  show (if flushEntryCount ≤ (l.pending ++ [e]).length ∨ _ then _ else _) = _
  rw [hlen]
  exact if_neg h

/-- `append`; the clock is read at `seen`, and at `now` after a flush. -/
def append (a : Appended Time) (seen now : Nat) (l : AuditLog Time) : AuditLog Time :=
  let (entry, l) := buildEntry E a l
  push E entry seen now l

/-- `flush`. -/
def flush (now : Nat) (l : AuditLog Time) : AuditLog Time := flushInner E now l

/-- `wipe`. -/
def wipe (l : AuditLog Time) : AuditLog Time :=
  { l with
    pending := []
    previousHash := E.chain.genesis
    dir := { l.dir with wiped := some l.dir.log, log := [], chain := none } }

/-! ## Reading -/

/-- `matches_filter`. -/
def matchesFilter (e : AuditEntry Time) (f : AuditFilter Time) : Bool :=
  f.agent.all (e.agent = ·) && f.action.all (e.action = ·) &&
    f.since.all (fun since => ! E.codecs.earlier e.ts since) &&
    f.intentId.all (e.intentId = some ·) && f.halLevel.all (e.halLevel = some ·) &&
    f.targetContains.all (Text.contains (e.target.getD "") ·)

/-- `query`. -/
def query (f : AuditFilter Time) (now : Nat) (l : AuditLog Time) :
    List (AuditEntry Time) × AuditLog Time :=
  let l := flush E now l
  match Text.fromUtf8? l.dir.log with
  | none => ([], l)
  | some content =>
      (((Text.lines content).filterMap (AuditEntry.readLine E.codecs)).filter
        (matchesFilter E · f), l)

def chainBroken (n : Nat) (e : AuditEntry Time) : VerifyResult :=
  ⟨false, some n, some ("Chain broken at entry " ++ toString n ++ " (agent=" ++ e.agent
    ++ ", action=" ++ e.action ++ ")")⟩

def invalidLine (n : Nat) (line : String) : VerifyResult :=
  ⟨false, some n, some ("Invalid audit JSON at entry " ++ toString n ++ ": " ++ E.jsonError line)⟩

def headMismatch (n : Nat) (expected got : String) : VerifyResult :=
  ⟨false, some (n + 1), some ("Chain head mismatch after entry " ++ toString n
    ++ " (expected persisted head " ++ expected ++ ", got " ++ got ++ ")")⟩

/-- The loop of `verify`: `n` lines are checked, the last of them had the hash `previous`. -/
def checkLines (previous : String) (n : Nat) : List String → Except VerifyResult (String × Nat)
  | [] => .ok (previous, n)
  | line :: lines =>
      match AuditEntry.readLine E.codecs line with
      | none => .error (invalidLine E (n + 1) line)
      | some e =>
          if e.chainHash ≠ E.hash (previous ++ e.body E.codecs) then .error (chainBroken (n + 1) e)
          else checkLines e.chainHash (n + 1) lines

/-- The files checked. -/
def verifyDir (d : LogDir) : VerifyResult :=
  match Text.fromUtf8? d.log with
  | none => ⟨false, none, some (E.readError d.log)⟩
  | some content =>
      match checkLines E E.chain.genesis 0 (Text.lines content) with
      | .error result => result
      | .ok (previous, n) =>
          if previous ≠ d.loadChainTip E then headMismatch n (d.loadChainTip E) previous
          else ⟨true, none, none⟩

/-- `verify`. -/
def verify (now : Nat) (l : AuditLog Time) : VerifyResult × AuditLog Time :=
  let l := flush E now l
  (verifyDir E l.dir, l)

theorem flushInner_of_pending_nil {l : AuditLog Time} (h : l.pending = []) (now : Nat) :
    flushInner E now l = l := by
  rw [flushInner, h, List.isEmpty_nil, if_pos rfl]

@[simp] theorem pending_flushInner (now : Nat) (l : AuditLog Time) :
    (flushInner E now l).pending = [] := by
  rw [flushInner]
  split
  next h => exact List.isEmpty_iff.mp h
  next => rfl

@[simp] theorem previousHash_flushInner (now : Nat) (l : AuditLog Time) :
    (flushInner E now l).previousHash = l.previousHash := by
  rw [flushInner]
  split <;> rfl

theorem verify_of_pending_nil {l : AuditLog Time} (h : l.pending = []) (now : Nat) :
    (verify E now l).1 = verifyDir E l.dir := by
  show verifyDir E (flushInner E now l).dir = _
  rw [flushInner_of_pending_nil E h]

/-! ## What a check says -/

/-- The entries of a file, when every line is one. -/
def entriesOf (log : List UInt8) : Option (List (AuditEntry Time)) :=
  (Text.fromUtf8? log).bind fun content =>
    (Text.lines content).mapM (AuditEntry.readLine E.codecs)

theorem checkLines_ok_iff {previous h : String} {n m : Nat} {lines : List String} :
    checkLines E previous n lines = .ok (h, m) ↔
      ∃ es, lines.mapM (AuditEntry.readLine E.codecs) = some es ∧ E.chain.Linked previous es ∧
        h = E.chain.head previous es ∧ m = n + lines.length := by
  induction lines generalizing previous n with
  | nil =>
      constructor
      · intro hok
        cases hok
        exact ⟨[], rfl, trivial, rfl, rfl⟩
      · rintro ⟨es, hes, -, rfl, rfl⟩
        cases hes
        rfl
  | cons line lines ih =>
      rw [checkLines]
      cases hline : AuditEntry.readLine E.codecs line with
      | none =>
          constructor
          · intro hok
            cases hok
          · rintro ⟨es, hes, -⟩
            rw [List.mapM_cons, hline] at hes
            cases hes
      | some e =>
          have hmap : ∀ es, (line :: lines).mapM (AuditEntry.readLine E.codecs) = some es ↔
              ∃ rest, lines.mapM (AuditEntry.readLine E.codecs) = some rest ∧ es = e :: rest := by
            intro es
            rw [List.mapM_cons, hline]
            cases lines.mapM (AuditEntry.readLine E.codecs) with
            | none => simp
            | some rest => simp [eq_comm]
          by_cases hhash : e.chainHash = E.hash (previous ++ e.body E.codecs)
          · show (if e.chainHash ≠ _ then _ else _) = _ ↔ _
            rw [if_neg (not_not.mpr hhash), ih]
            constructor
            · rintro ⟨rest, hrest, hlinked, rfl, rfl⟩
              refine ⟨e :: rest, (hmap _).mpr ⟨rest, hrest, rfl⟩, ⟨hhash, hlinked⟩, rfl, ?_⟩
              rw [List.length_cons]
              omega
            · rintro ⟨es, hes, hlinked, rfl, rfl⟩
              obtain ⟨rest, hrest, rfl⟩ := (hmap es).mp hes
              refine ⟨rest, hrest, hlinked.2, rfl, ?_⟩
              rw [List.length_cons]
              omega
          · show (if e.chainHash ≠ _ then _ else _) = _ ↔ _
            rw [if_pos hhash]
            constructor
            · intro hok
              cases hok
            · rintro ⟨es, hes, hlinked, -⟩
              obtain ⟨rest, -, rfl⟩ := (hmap es).mp hes
              exact absurd hlinked.1 hhash

theorem checkLines_error {previous : String} {n : Nat} {lines : List String} {r : VerifyResult}
    (h : checkLines E previous n lines = .error r) : r.valid ≠ true := by
  induction lines generalizing previous n with
  | nil => cases h
  | cons line lines ih =>
      rw [checkLines] at h
      cases hline : AuditEntry.readLine E.codecs line with
      | none =>
          rw [hline] at h
          cases h
          exact Bool.false_ne_true
      | some e =>
          simp only [hline] at h
          by_cases hhash : e.chainHash ≠ E.hash (previous ++ e.body E.codecs)
          · rw [if_pos hhash] at h
            cases h
            exact Bool.false_ne_true
          · rw [if_neg hhash] at h
            exact ih h

/-- A check passes when the file is a chain of entries up to the persisted hash. -/
theorem verifyDir_valid_iff {d : LogDir} :
    (verifyDir E d).valid = true ↔
      ∃ es, entriesOf E d.log = some es ∧ E.chain.Linked E.chain.genesis es ∧
        E.chain.head E.chain.genesis es = d.loadChainTip E := by
  rw [verifyDir, entriesOf]
  cases hcontent : Text.fromUtf8? d.log with
  | none => simp
  | some content =>
      rw [Option.bind_some]
      cases hcheck : checkLines E E.chain.genesis 0 (Text.lines content) with
      | error result =>
          simp only [hcheck]
          constructor
          · intro hvalid
            exact absurd hvalid (checkLines_error E hcheck)
          · rintro ⟨es, hes, hlinked, -⟩
            have hok := (checkLines_ok_iff E (n := 0)).mpr ⟨es, hes, hlinked, rfl, rfl⟩
            rw [hcheck] at hok
            cases hok
      | ok r =>
          obtain ⟨previous, n⟩ := r
          obtain ⟨es, hes, hlinked, rfl, -⟩ := (checkLines_ok_iff E).mp hcheck
          simp only [hcheck]
          by_cases htip : E.chain.head E.chain.genesis es = d.loadChainTip E
          · rw [if_neg (not_not.mpr htip)]
            exact ⟨fun _ => ⟨es, hes, hlinked, htip⟩, fun _ => rfl⟩
          · rw [if_pos htip]
            constructor
            · intro hvalid
              cases hvalid
            · rintro ⟨es', hes', -, htip'⟩
              rw [hes] at hes'
              cases hes'
              exact absurd htip' htip

/-! ## Files that were written -/

theorem fileOf_append (es fs : List (AuditEntry Time)) :
    fileOf E (es ++ fs) = fileOf E es ++ fileOf E fs := by
  rw [fileOf, List.map_append, Text.unlines_append]
  rfl

/-- A flush that sets no file aside adds the pending entries to the log. -/
theorem log_flushInner {l : AuditLog Time} (h : ¬ l.Rotates) (now : Nat) :
    (flushInner E now l).dir.log = l.dir.log ++ fileOf E l.pending := by
  cases hp : l.pending with
  | nil =>
      rw [flushInner_of_pending_nil E hp]
      exact (List.append_nil _).symm
  | cons e es =>
      have hsize : ¬ maxLogSizeBytes < l.dir.log.length := fun hlt =>
        h ⟨by rw [hp]; exact List.cons_ne_nil e es, hlt⟩
      rw [flushInner, hp, List.isEmpty_cons, if_neg Bool.false_ne_true, if_neg hsize]

theorem entriesOf_unlines {ls : List String} (h : ∀ l ∈ ls, Text.IsLine l) :
    entriesOf E (Text.unlines ls) = ls.mapM (AuditEntry.readLine E.codecs) := by
  have hlines := Text.lines_unlines h
  rw [Option.map_eq_some_iff] at hlines
  obtain ⟨content, hcontent, hls⟩ := hlines
  rw [entriesOf, hcontent, Option.bind_some, hls]

/-- Lines that read as entries, one after the other. -/
theorem entriesOf_lines {es : List (AuditEntry Time)} (line : AuditEntry Time → String)
    (g : AuditEntry Time → AuditEntry Time) (hline : ∀ e ∈ es, Text.IsLine (line e))
    (hread : ∀ e ∈ es, AuditEntry.readLine E.codecs (line e) = some (g e)) :
    entriesOf E (Text.unlines (es.map line)) = some (es.map g) := by
  rw [entriesOf_unlines E (List.forall_mem_map.mpr hline), List.mapM_map]
  clear hline
  induction es with
  | nil => rfl
  | cons e es ih =>
      have hrest := ih fun f hf => hread f (List.mem_cons_of_mem _ hf)
      rw [List.mapM_cons, hrest]
      simp only [Function.comp_apply, hread e List.mem_cons_self]
      rfl

/-- Written entries with finite scores are the entries of the file. -/
theorem entriesOf_fileOf {es : List (AuditEntry Time)} (h : ∀ e ∈ es, e.FiniteScore) :
    entriesOf E (fileOf E es) = some es := by
  have hlines := entriesOf_lines E (AuditEntry.line E.codecs) id
    (fun e _ => Json.isLine_print _) (fun e he => AuditEntry.readLine_line E.codecs (h e he))
  rw [List.map_id] at hlines
  exact hlines

end AuditLog

/-! ## A sample -/

/-- The sample codecs, with these digests of texts. -/
def LogEnv.sample (digests : String → Nat) :
    LogEnv { s : String // Json.escapedLen s ≤ 40 } where
  codecs := Codecs.sample
  sha := Sha256.ofText digests
  jsonError _ := "expected value"
  readError _ := "stream did not contain valid UTF-8"

theorem LogEnv.hash_sample (f : String → Nat) (s : String) :
    (sample f).hash s = Hex.encode (Sha256.bytes32 (f s)) :=
  Sha256.hex_ofText f s

/-- An action of the file agent with a note. -/
def openFile (note : Option String) : Appended { s : String // Json.escapedLen s ≤ 40 } where
  ts := Codecs.midnight
  agent := "file_agent"
  action := "open_file"
  outcome := "success"
  target := none
  halScore := none
  halLevel := none
  intentId := none
  reversible := none
  note := note
  session := none

end Hal

/-
# `Cognos.Hal.AuditTamper` — a changed log file is noticed

After entries were appended and flushed, someone replaces the log file; the persisted hash
stays.  If the check then passes, the file still holds the entries that were appended,
provided their scores are numbers and no two of the inputs that were hashed collide.

An entry whose score is not a number is hashed with `null` for it.  A literal beyond the
range of `f32` in its place reads as an infinity and is hashed as `null` again, so the
file may say anything infinite there.

    parsed_eq_appended    what a passing check says of numbers
    not_tamperEvident     what it misses of the rest
-/
import Mathlib
import Cognos.Hal.AuditRuns

namespace Hal

open AuditLog

variable {Time : Type} (E : LogEnv Time)

/-! ## What is hashed -/

/-- The texts that are hashed for a chain of entries, and the one it starts from. -/
def hashInputs (es : List (AuditEntry Time)) : List String :=
  initialHashInput :: (E.chain.links E.chain.genesis es).map fun p => p.1 ++ p.2

/-- No two of these texts have one digest. -/
def CollisionFree (inputs : List String) : Prop :=
  ∀ s ∈ inputs, ∀ t ∈ inputs, E.sha.digest (Text.bytes s) = E.sha.digest (Text.bytes t) → s = t

theorem CollisionFree.of_hash {inputs : List String} (h : CollisionFree E inputs) {s t : String}
    (hs : s ∈ inputs) (ht : t ∈ inputs) (heq : E.hash s = E.hash t) : s = t :=
  h s hs t ht (E.sha.digest_eq_of_hex_eq heq)

/-- What a linked chain links to are digests. -/
theorem length_of_mem_links {es : List (AuditEntry Time)} {h : String}
    (hh : h.toList.length = 64) (hlinked : E.chain.Linked h es) :
    ∀ p ∈ E.chain.links h es, p.1.toList.length = 64 := by
  induction es generalizing h with
  | nil => intro p hp; cases hp
  | cons e es ih =>
      intro p hp
      rcases List.mem_cons.mp hp with rfl | hp
      · exact hh
      · have hhash : (E.chain.hash e).toList.length = 64 := by
          rw [hlinked.1]
          exact E.sha.length_hex _
        exact ih hhash hlinked.2 p hp

/-- Freedom from collisions of texts is freedom from collisions of links. -/
theorem collisionless {es fs : List (AuditEntry Time)}
    (hes : E.chain.Linked E.chain.genesis es) (hfs : E.chain.Linked E.chain.genesis fs)
    (hfree : CollisionFree E (hashInputs E es ++ hashInputs E fs)) :
    E.chain.Collisionless es fs := by
  have hgen : E.chain.genesis.toList.length = 64 := E.sha.length_hex _
  have hles := length_of_mem_links E hgen hes
  have hlfs := length_of_mem_links E hgen hfs
  have hinl : ∀ p ∈ E.chain.links E.chain.genesis es,
      p.1 ++ p.2 ∈ hashInputs E es ++ hashInputs E fs := fun p hp =>
    List.mem_append_left _ (List.mem_cons_of_mem _ (List.mem_map_of_mem hp))
  have hinr : ∀ p ∈ E.chain.links E.chain.genesis fs,
      p.1 ++ p.2 ∈ hashInputs E es ++ hashInputs E fs := fun p hp =>
    List.mem_append_right _ (List.mem_cons_of_mem _ (List.mem_map_of_mem hp))
  have hstart : initialHashInput ∈ hashInputs E es ++ hashInputs E fs :=
    List.mem_append_left _ List.mem_cons_self
  -- a text that links to a digest is longer than the one the chain starts from
  have hlong : ∀ p : String × String, p.1.toList.length = 64 → p.1 ++ p.2 ≠ initialHashInput := by
    intro p hp heq
    have hlen := congrArg (fun s : String => s.toList.length) heq
    simp only [String.toList_append, List.length_append, hp] at hlen
    have hinit : initialHashInput.toList.length = 15 := by decide
    omega
  refine ⟨?_, ?_, ?_⟩
  · intro p hp q hq heq
    have htext := hfree.of_hash E (hinl p hp) (hinr q hq) heq
    have hchars : p.1.toList ++ p.2.toList = q.1.toList ++ q.2.toList := by
      rw [← String.toList_append, htext, String.toList_append]
    obtain ⟨hfst, hsnd⟩ := List.append_inj hchars ((hles p hp).trans (hlfs q hq).symm)
    exact Prod.ext (String.toList_injective hfst) (String.toList_injective hsnd)
  · intro p hp heq
    exact hlong p (hles p hp) (hfree.of_hash E (hinl p hp) hstart heq)
  · intro q hq heq
    exact hlong q (hlfs q hq) (hfree.of_hash E (hinr q hq) hstart heq)

/-! ## A passing check -/

/-- The log with other contents for its file. -/
def AuditLog.replaced (l : AuditLog Time) (contents : List UInt8) : AuditLog Time :=
  { l with dir := { l.dir with log := contents } }

/-- Whatever the file is replaced by, a passing check means that it holds these entries. -/
def TamperEvident (l : AuditLog Time) (appended : List (AuditEntry Time)) : Prop :=
  ∀ contents : List UInt8,
    (∀ es, entriesOf E contents = some es →
      CollisionFree E (hashInputs E appended ++ hashInputs E es)) →
    ∀ now, (verify E now (l.replaced contents)).1.valid = true →
      entriesOf E contents = some appended

/-- Entries with numbers for scores. -/
theorem tamperEvident {l : AuditLog Time} {appended : List (AuditEntry Time)}
    (hp : l.pending = []) (hlinked : E.chain.Linked E.chain.genesis appended)
    (htip : TipIs E appended l.dir) (hfin : ∀ e ∈ appended, e.FiniteScore) :
    TamperEvident E l appended := by
  intro contents hfree now hvalid
  have hp' : (l.replaced contents).pending = [] := hp
  rw [verify_of_pending_nil E hp'] at hvalid
  obtain ⟨es, hes, hlinked', hhead⟩ := (verifyDir_valid_iff E).mp hvalid
  have hes' : entriesOf E contents = some es := hes
  have hfree' := collisionless E hlinked hlinked' (hfree es hes')
  have hdet : E.chain.Determined appended es := fun e he f _ hbody hhash =>
    AuditEntry.eq_of_body_eq E.codecs (hfin e he) hbody hhash
  have hheads : E.chain.head E.chain.genesis appended = E.chain.head E.chain.genesis es :=
    htip.symm.trans hhead.symm
  rw [E.chain.eq_of_head_eq hdet hlinked hlinked' hfree' hheads]
  exact hes'

/-! ## Scores that are not numbers -/

/-- An infinity that is not the given one. -/
def otherInfinity (x : Float32) : Float32 := if x = 1 / 0 then -1 / 0 else 1 / 0

/-- A literal that reads as it. -/
def beyond (x : Float32) : Json.NumLit :=
  if x = 1 / 0 then ⟨"-1e39", by decide⟩ else ⟨"1e39", by decide⟩

theorem otherInfinity_ne (x : Float32) : otherInfinity x ≠ x := by
  have hne : (-1 / 0 : Float32) ≠ 1 / 0 := by decide
  rw [otherInfinity]
  split
  next h => exact fun heq => hne (heq.trans h)
  next h => exact fun heq => h heq.symm

theorem not_isFinite_otherInfinity (x : Float32) : (otherInfinity x).isFinite ≠ true := by
  rw [otherInfinity]
  split
  · decide
  · decide

theorem readF32_beyond (K : Codecs Time) (x : Float32) :
    K.readF32 (beyond x) = some (otherInfinity x) := by
  rw [beyond, otherInfinity]
  split
  · exact K.readF32_below _ rfl
  · exact K.readF32_above _ rfl

namespace AuditEntry

variable (K : Codecs Time)

/-- Another infinity for a score that is not a number. -/
def forgeScore (x : Float32) : Float32 := if x.isFinite then x else otherInfinity x

/-- What stands in the forged line for a score. -/
def forgeText (x : Float32) : Json.Value := if x.isFinite then K.f32 x else .num (beyond x)

def forge (e : AuditEntry Time) : AuditEntry Time :=
  { e with halScore := e.halScore.map forgeScore }

def forgedLine (e : AuditEntry Time) : String :=
  (Json.record (e.scored K (e.halScore.map (forgeText K)))).print

theorem readF32?_forgeText (x : Float32) : K.readF32? (forgeText K x) = some (forgeScore x) := by
  rw [forgeText, forgeScore]
  split
  next h => exact K.readF32?_f32 h
  next => exact readF32_beyond K x

theorem readLine_forgedLine (e : AuditEntry Time) :
    readLine K (e.forgedLine K) = some e.forge := by
  have hscore : Json.optional K.readF32? (e.halScore.map (forgeText K))
      = some (e.halScore.map forgeScore) := by
    cases e.halScore with
    | none => rfl
    | some x =>
        exact Json.optional_of_read (readF32?_forgeText K x) rfl
  rw [readLine, forgedLine, Json.parseText_print, Option.bind_some, read_scored K hscore]
  rfl

/-- The forged entry is hashed like the entry. -/
theorem body_forge (e : AuditEntry Time) : e.forge.body K = e.body K := by
  have hscore : (e.halScore.map forgeScore).map K.f32 = e.halScore.map K.f32 := by
    cases e.halScore with
    | none => rfl
    | some x =>
        rw [Option.map_some, Option.map_some, Option.map_some, forgeScore]
        split
        next => rfl
        next h =>
          rw [Codecs.f32, Codecs.f32, if_neg h, if_neg (not_isFinite_otherInfinity x)]
  have hjson : e.forge.withoutHash.members K = e.withoutHash.members K := by
    show (e.withoutHash.scored K ((e.halScore.map forgeScore).map K.f32)) = _
    rw [hscore]
    rfl
  rw [body, body, line, line, json, json, hjson]

theorem forge_ne {e : AuditEntry Time} (h : ¬ e.FiniteScore) : e.forge ≠ e := by
  intro heq
  refine h fun x hx => ?_
  by_contra hinf
  have hscore : e.halScore.map forgeScore = e.halScore := congrArg halScore heq
  rw [Option.mem_def.mp hx, Option.map_some, forgeScore, if_neg hinf] at hscore
  exact otherInfinity_ne x (Option.some.inj hscore)

end AuditEntry

/-- The file with forged lines. -/
def forgedFile (es : List (AuditEntry Time)) : List UInt8 :=
  Text.unlines (es.map (AuditEntry.forgedLine E.codecs))

theorem entriesOf_forgedFile (es : List (AuditEntry Time)) :
    entriesOf E (forgedFile E es) = some (es.map AuditEntry.forge) :=
  entriesOf_lines E (AuditEntry.forgedLine E.codecs) AuditEntry.forge
    (fun _ _ => Json.isLine_print _) (fun e _ => AuditEntry.readLine_forgedLine E.codecs e)

theorem hashInputs_forge (es : List (AuditEntry Time)) :
    hashInputs E (es.map AuditEntry.forge) = hashInputs E es := by
  have hlinks := E.chain.links_map (AuditEntry.body_forge E.codecs) (fun _ => rfl)
    E.chain.genesis es
  rw [hashInputs, hlinks]
  rfl

/-- With a score that is not a number, a forged file passes. -/
theorem not_tamperEvident {l : AuditLog Time} {appended : List (AuditEntry Time)}
    (hp : l.pending = []) (hlinked : E.chain.Linked E.chain.genesis appended)
    (htip : TipIs E appended l.dir) (hfree : CollisionFree E (hashInputs E appended))
    {e : AuditEntry Time} (he : e ∈ appended) (hinf : ¬ e.FiniteScore) :
    ¬ TamperEvident E l appended := by
  intro h
  have hentries := entriesOf_forgedFile E appended
  have hparsed := h (forgedFile E appended) ?_ 0 ?_
  · rw [hentries] at hparsed
    have hmap : appended.map AuditEntry.forge = appended.map id :=
      (Option.some.inj hparsed).trans (List.map_id _).symm
    exact AuditEntry.forge_ne hinf (List.map_inj_left.mp hmap e he)
  · intro es hes s hs t ht
    rw [hentries] at hes
    obtain rfl := Option.some.inj hes
    rw [hashInputs_forge] at hs ht
    have hs' : s ∈ hashInputs E appended := by
      rcases List.mem_append.mp hs with hs | hs <;> exact hs
    have ht' : t ∈ hashInputs E appended := by
      rcases List.mem_append.mp ht with ht | ht <;> exact ht
    exact hfree s hs' t ht'
  · have hp' : (l.replaced (forgedFile E appended)).pending = [] := hp
    rw [verify_of_pending_nil E hp']
    refine (verifyDir_valid_iff E).mpr ⟨appended.map AuditEntry.forge, hentries, ?_, ?_⟩
    · exact E.chain.linked_map (AuditEntry.body_forge E.codecs) (fun _ => rfl) hlinked
    · have hhead := E.chain.head_map (g := AuditEntry.forge) (fun _ => rfl) E.chain.genesis appended
      exact hhead.trans htip.symm

/-! ## Runs -/

namespace LogOp

/-- The entries a run appends. -/
def appended : AuditLog Time → List (LogOp Time) → List (AuditEntry Time)
  | _, [] => []
  | l, .append a seen now :: ops =>
      (buildEntry E a l).1 :: appended (step E l (.append a seen now)) ops
  | l, op :: ops => appended (step E l op) ops

/-- Written or in memory is what was there and what the run appended. -/
theorem current_along {ops : List (LogOp Time)} {written : List (AuditEntry Time)}
    {l : AuditLog Time} (h : Current E written l) (hops : ∀ op ∈ ops, op.Writes)
    (hrot : Run.Along (step E) (fun l op => ¬ op.Rotates l) l ops) :
    ∃ written', Current E written' (Run.after (step E) l ops) ∧
      written' ++ (Run.after (step E) l ops).pending
        = written ++ l.pending ++ appended E l ops := by
  induction ops generalizing written l with
  | nil => exact ⟨written, h, (List.append_nil _).symm⟩
  | cons op ops ih =>
      have hrest : ∀ op ∈ ops, op.Writes := fun op hop => hops op (List.mem_cons_of_mem _ hop)
      have hop := hops op List.mem_cons_self
      cases op with
      | append a seen now =>
          obtain ⟨written₁, h₁, heq₁⟩ :=
            current_push E (holds_buildEntry E h.holds a) h.tip now hrot.1
          obtain ⟨written₂, h₂, heq₂⟩ := ih h₁ hrest hrot.2
          refine ⟨written₂, h₂, heq₂.trans ?_⟩
          have heq₁' : written₁ ++ (AuditLog.append E a seen now l).pending
              = written ++ l.pending ++ [(buildEntry E a l).1] := heq₁
          show written₁ ++ (AuditLog.append E a seen now l).pending ++ _ = _
          rw [heq₁', List.append_assoc]
          rfl
      | flush now =>
          obtain ⟨written₂, h₂, heq₂⟩ := ih (current_flush E h hrot.1 now) hrest hrot.2
          refine ⟨written₂, h₂, heq₂.trans ?_⟩
          show written ++ l.pending ++ (AuditLog.flush E now l).pending ++ _ = _
          rw [AuditLog.flush, pending_flushInner, List.append_nil]
          rfl
      | query f now => exact hop.elim
      | verify now => exact hop.elim
      | wipe => exact hop.elim
      | reopen now => exact hop.elim

theorem finite_appended_iff {l : AuditLog Time} {ops : List (LogOp Time)} :
    (∀ e ∈ appended E l ops, e.FiniteScore) ↔ ∀ op ∈ ops, op.FiniteScore := by
  induction ops generalizing l with
  | nil => exact ⟨fun _ _ hop => (nomatch hop), fun _ _ he => (nomatch he)⟩
  | cons op ops ih =>
      rw [List.forall_mem_cons]
      cases op with
      | append a seen now =>
          rw [appended, List.forall_mem_cons, ih]
          exact Iff.rfl
      | _ =>
          rw [← @ih (step E l _)]
          exact ⟨fun h => ⟨trivial, h⟩, fun h => h.2⟩

/-- A run that leaves nothing in memory: what it appended is one chain, up to the persisted
hash. -/
theorem linked_done {ops : List (LogOp Time)} {start : Nat} (hops : ∀ op ∈ ops, op.Writes)
    (hrot : Run.Along (step E) (fun l op => ¬ op.Rotates l) (openAt E LogDir.fresh start) ops)
    (hdone : (Run.after (step E) (openAt E LogDir.fresh start) ops).pending = []) :
    E.chain.Linked E.chain.genesis (appended E (openAt E LogDir.fresh start) ops) ∧
      TipIs E (appended E (openAt E LogDir.fresh start) ops)
        (Run.after (step E) (openAt E LogDir.fresh start) ops).dir := by
  obtain ⟨written, h, heq⟩ := current_along E ⟨holds_openAt_fresh E start, rfl⟩ hops hrot
  have hlinked := h.holds.linked
  rw [hdone, List.append_nil] at heq
  rw [hdone, List.append_nil, List.append_nil] at hlinked
  have hwritten : written = appended E (openAt E LogDir.fresh start) ops := heq
  rw [← hwritten]
  exact ⟨hlinked, h.tip⟩

end LogOp

/-- Any run of appends and flushes that leaves nothing in memory and sets no file aside: its log
is tamper-evident exactly when every score is a number. -/
theorem tamperEvident_iff {ops : List (LogOp Time)} {start : Nat}
    (hops : ∀ op ∈ ops, op.Writes)
    (hrot : Run.Along (LogOp.step E) (fun l op => ¬ op.Rotates l) (openAt E LogDir.fresh start)
      ops)
    (hdone : (Run.after (LogOp.step E) (openAt E LogDir.fresh start) ops).pending = [])
    (hfree : CollisionFree E
      (hashInputs E (LogOp.appended E (openAt E LogDir.fresh start) ops))) :
    TamperEvident E (Run.after (LogOp.step E) (openAt E LogDir.fresh start) ops)
        (LogOp.appended E (openAt E LogDir.fresh start) ops) ↔
      ∀ op ∈ ops, op.FiniteScore := by
  obtain ⟨hlinked, htip⟩ := LogOp.linked_done E hops hrot hdone
  rw [← LogOp.finite_appended_iff E]
  constructor
  · intro htamper e he
    by_contra hinf
    exact not_tamperEvident E hdone hlinked htip hfree he hinf htamper
  · exact tamperEvident E hdone hlinked htip

theorem collisionFree_pair {s t : String} (h : E.hash s ≠ E.hash t) :
    CollisionFree E [s, t] := by
  have hne : E.sha.digest (Text.bytes s) ≠ E.sha.digest (Text.bytes t) := fun heq =>
    h (congrArg Hex.encode heq)
  intro u hu v hv heq
  rcases List.mem_pair.mp hu with hu | hu <;> rcases List.mem_pair.mp hv with hv | hv
  · exact hu.trans hv.symm
  · exact absurd (hu ▸ hv ▸ heq) hne
  · exact absurd (hu ▸ hv ▸ heq.symm) hne
  · exact hu.trans hv.symm

/-- One entry that goes to disk with the next flush. -/
def single (a : Appended Time) : List (LogOp Time) := [.append a 0 0, .flush 0]

theorem writes_single (a : Appended Time) : ∀ op ∈ single a, op.Writes := by
  intro op hop
  rcases List.mem_cons.mp hop with rfl | hop
  · trivial
  · rw [List.mem_singleton.mp hop]
    trivial

theorem along_single (a : Appended Time) :
    Run.Along (LogOp.step E) (fun l op => ¬ op.Rotates l) (openAt E LogDir.fresh 0) (single a) :=
  ⟨fun hr => Nat.not_lt_zero _ hr.2, fun hr => Nat.not_lt_zero _ hr.2, trivial⟩

theorem pending_single (a : Appended Time) :
    (Run.after (LogOp.step E) (openAt E LogDir.fresh 0) (single a)).pending = [] := by
  rw [single, Run.after_cons, Run.after_cons, Run.after_nil]
  exact pending_flushInner E 0 _

/-- An action without a score. -/
theorem tamperEvident_iff_openFile :
    TamperEvident rotatedEnv
        (Run.after (LogOp.step rotatedEnv) (openAt rotatedEnv LogDir.fresh 0)
          (single (openFile none)))
        (LogOp.appended rotatedEnv (openAt rotatedEnv LogDir.fresh 0) (single (openFile none))) ↔
      ∀ op ∈ single (openFile none), op.FiniteScore := by
  refine tamperEvident_iff rotatedEnv (writes_single _) (along_single rotatedEnv _)
    (pending_single rotatedEnv _) (collisionFree_pair rotatedEnv ?_)
  show rotatedEnv.chain.genesis ≠ rotatedEnv.hash (rotatedEnv.chain.genesis
    ++ (entry (openFile none)).line Codecs.sample)
  rw [genesis_rotated, line_openFile, rotatedEnv, LogEnv.hash_sample]
  decide +kernel

/-! ## An infinite score -/

def openFileInfinite : Appended { s : String // Json.escapedLen s ≤ 40 } :=
  { openFile none with halScore := some (1 / 0) }

/-- The text that is hashed for it. -/
def infiniteBody : String :=
  "\x7b\"ts\":\"2026-01-01T00:00:00Z\",\"agent\":\"file_agent\",\"action\":\"op"
    ++ "en_file\",\"outcome\":\"success\",\"hal_score\":null,\"chain_hash\":\"\"\x7d"

def infiniteDigests (s : String) : Nat :=
  (List.lookup s
    [("cognos-audit-v1", 0xc14b478def96da5d7baf23a9e9e14ccfff0a8de45d647b1e0c12a6e53bd38d69),
      ("c14b478def96da5d7baf23a9e9e14ccfff0a8de45d647b1e0c12a6e53bd38d69" ++ infiniteBody,
        0x0c70426d72d5202052043b389c405ecb9e4b052b1daea0d394902449ca89dac5)]).getD 0

def infiniteEnv : LogEnv { s : String // Json.escapedLen s ≤ 40 } := LogEnv.sample infiniteDigests

theorem collisionFree_infinite : CollisionFree infiniteEnv (hashInputs infiniteEnv
    (LogOp.appended infiniteEnv (openAt infiniteEnv LogDir.fresh 0)
      (single openFileInfinite))) := by
  refine collisionFree_pair infiniteEnv ?_
  have hgen : infiniteEnv.chain.genesis
      = "c14b478def96da5d7baf23a9e9e14ccfff0a8de45d647b1e0c12a6e53bd38d69" :=
    genesis_sample (by decide)
  have hline : (entry openFileInfinite).line Codecs.sample = infiniteBody := by decide +kernel
  show infiniteEnv.chain.genesis ≠ infiniteEnv.hash (infiniteEnv.chain.genesis
    ++ (entry openFileInfinite).line Codecs.sample)
  rw [hgen, hline, infiniteEnv, LogEnv.hash_sample]
  decide +kernel

/-- The score of the one entry is forged, and the check passes. -/
theorem not_tamperEvident_infinite :
    ¬ ∀ ops : List (LogOp { s : String // Json.escapedLen s ≤ 40 }), (∀ op ∈ ops, op.Writes) →
      Run.Along (LogOp.step infiniteEnv) (fun l op => ¬ op.Rotates l)
        (openAt infiniteEnv LogDir.fresh 0) ops →
      (Run.after (LogOp.step infiniteEnv) (openAt infiniteEnv LogDir.fresh 0) ops).pending = [] →
      TamperEvident infiniteEnv
        (Run.after (LogOp.step infiniteEnv) (openAt infiniteEnv LogDir.fresh 0) ops)
        (LogOp.appended infiniteEnv (openAt infiniteEnv LogDir.fresh 0) ops) := by
  intro h
  have htamper := h (single openFileInfinite) (writes_single _) (along_single infiniteEnv _)
    (pending_single infiniteEnv _)
  obtain ⟨hlinked, htip⟩ := LogOp.linked_done infiniteEnv (writes_single openFileInfinite)
    (along_single infiniteEnv _) (pending_single infiniteEnv _)
  refine not_tamperEvident infiniteEnv (pending_single infiniteEnv _) hlinked htip
    collisionFree_infinite (List.mem_singleton_self _) ?_ htamper
  intro hfin
  exact absurd (hfin (1 / 0) rfl) (by decide)

end Hal

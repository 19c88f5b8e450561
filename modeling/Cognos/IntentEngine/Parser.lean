/-
# `Cognos.IntentEngine.Parser` — from an utterance to an intent

`IntentParser::parse` of `parser.rs`, with `normalize` of `tokenizer.rs`: an empty utterance is
answered as such, one that was asked before from the cache, and any other by the model, whose
output is checked and then cached.  What the model answers, the hash that makes the keys, the
clock and the fresh ids come from outside; of a hash nothing is assumed.

The key keeps of a session only the domain that was active last, while the intent that is
cached holds all of it.  A hit writes the words of the new request over the old ones, and not
its session.

    stems_calls      where the intents in a cache come from
    transparent_iff  a hit is what the model's output means for the new request exactly when
                     that has the session of the old one
-/
import Mathlib
import Cognos.IntentEngine.Disambiguation
import Cognos.IntentEngine.KvCache

namespace IntentEngine

open Json (Reader)
open Orchestrator (HashOrder)

/-! ## Words -/

/-- `char::is_ascii_punctuation`. -/
def isAsciiPunctuation (c : Char) : Bool :=
  let n := c.toNat
  (33 ≤ n && n ≤ 47) || (58 ≤ n && n ≤ 64) || (91 ≤ n && n ≤ 96) || (123 ≤ n && n ≤ 126)

/-- Normalize raw user input. -/
def normalize (input : String) : String :=
  let lowered := Text.toLowercase (Text.trim input)
  let stripped :=
    String.ofList (lowered.toList.map fun c => if isAsciiPunctuation c then ' ' else c)
  String.intercalate " " (splitWhitespace stripped)

/-! ## Keys -/

/-- A hash of the words, the domain, the part of the day and the day of the week. -/
abbrev KeyHash := String → Option String → Nat → Nat → UInt64

def hourBucket (hour : Nat) : Nat :=
  if hour ≤ 5 then 0 else if hour ≤ 11 then 1 else if hour ≤ 17 then 2 else 3

def makeKey (hash : KeyHash) (rawInput : String) (session : SessionContext)
    (hour weekday : Nat) : UInt64 :=
  let lowered := Text.toLowercase (Text.trim rawInput)
  let normalized := String.ofList (lowered.toList.filter fun c => !isAsciiPunctuation c)
  hash normalized session.lastActiveDomain (hourBucket hour) weekday

/-! ## Requests -/

inductive IntentError
  | inference (e : String)
  | schema (e : ParseError)

/-- Result of a successful parse, including cache provenance. -/
structure ParseResult where
  schema : IntentSchema
  cacheHit : Bool

/-- What is asked, and what the world has for it: the hour and day it is, the times of the
look-up and of the insert, the walk of the map, a fresh id and the answer of the model. -/
structure ParseRequest where
  rawInput : String
  session : SessionContext
  hour : Nat
  weekday : Nat
  now : Nat
  answeredAt : Nat
  walk : HashOrder UInt64
  fresh : Uuid
  infer : String → SessionContext → Except String String

/-- What the model is asked. -/
def ParseRequest.answer (r : ParseRequest) : Except String String :=
  r.infer (normalize r.rawInput) r.session

def ParseRequest.key (hash : KeyHash) (r : ParseRequest) : UInt64 :=
  makeKey hash (normalize r.rawInput) r.session r.hour r.weekday

/-- Deterministic intent for empty input. -/
def awaitInputForEmpty (fresh : Uuid) (rawInput : String) (session : SessionContext) :
    IntentSchema where
  intentId := fresh
  rawInput := rawInput
  goal := "await_input"
  domain := none
  confidence := 0.1
  ambiguityScore := 0.5
  riskEstimate := 0.0
  requiredContext := ["user_clarification"]
  candidateActions := []
  disambiguationRequired := false
  disambiguationQuestion := none
  sessionContext := session
  halPreScore := 0.0
  escalateToCloud := true
  source := none

section Parser

variable (R : Reader) (hash : KeyHash)

/-- The intent a model's output means for a request. -/
def readAnswer (fresh : Uuid) (llmJson : String) (r : ParseRequest) :
    Except ParseError IntentSchema :=
  parseLlmOutputWithContext R fresh llmJson r.rawInput r.session

/-- Parse raw user input into a validated intent; the second result is the cache behind it. -/
def parse (cache : IntentKvCache) (r : ParseRequest) :
    Except IntentError ParseResult × IntentKvCache :=
  if normalize r.rawInput = "" then
    (.ok ⟨awaitInputForEmpty r.fresh r.rawInput r.session, false⟩, cache)
  else
    match cache.get r.now (r.key hash) with
    | (some hit, cache) => (.ok ⟨{ hit with rawInput := r.rawInput }, true⟩, cache)
    | (none, cache) =>
        match r.answer with
        | .error e => (.error (.inference e), cache)
        | .ok llmJson =>
            match readAnswer R r.fresh llmJson r with
            | .error e => (.error (.schema e), cache)
            | .ok schema =>
                (.ok ⟨schema, false⟩, cache.insert r.walk r.answeredAt (r.key hash) schema)

/-- What is called on a parser. -/
inductive ParserCall
  | parse (r : ParseRequest)
  | invalidateDomain (domain : String)
  | invalidateAll

def parserStep (cache : IntentKvCache) : ParserCall → IntentKvCache
  | .parse r => (parse R hash cache r).2
  | .invalidateDomain domain => cache.invalidateDomain domain
  | .invalidateAll => cache.invalidateAll

end Parser

/-! ## What is in a cache -/

section Provenance

variable {R : Reader} {hash : KeyHash}

/-- The intent was read from the model's answer to one of the requests, under its key. -/
def Stems (R : Reader) (hash : KeyHash) (calls : List ParserCall) (key : UInt64)
    (schema : IntentSchema) : Prop :=
  ∃ first output, .parse first ∈ calls ∧ first.key hash = key ∧ first.answer = .ok output ∧
    readAnswer R first.fresh output first = .ok schema

/-- All intents in a cache stem from requests. -/
def Provenance (R : Reader) (hash : KeyHash) (calls : List ParserCall) (cache : IntentKvCache) :
    Prop :=
  ∀ key e, cache.entries.lookup key = some e → Stems R hash calls key e.schema

theorem Stems.mono {calls calls' : List ParserCall} (hsub : ∀ c ∈ calls, c ∈ calls')
    {key : UInt64} {schema : IntentSchema} (h : Stems R hash calls key schema) :
    Stems R hash calls' key schema := by
  obtain ⟨first, output, hfirst, hrest⟩ := h
  exact ⟨first, output, hsub _ hfirst, hrest⟩

/-- A look-up leaves the intents of a cache, or drops one. -/
theorem lookup_get {cache : IntentKvCache} {now : Nat} {key k : UInt64} {e : CacheEntry}
    (h : (cache.get now key).2.entries.lookup k = some e) :
    ∃ old, cache.entries.lookup k = some old ∧ old.schema = e.schema := by
  unfold IntentKvCache.get at h
  cases hlook : cache.entries.lookup key with
  | none =>
      rw [hlook] at h
      exact ⟨e, h, rfl⟩
  | some old =>
      rw [hlook] at h
      simp only at h
      split_ifs at h
      · rcases eq_or_ne k key with rfl | hne
        · rw [AList.lookup_erase] at h
          cases h
        · rw [AList.lookup_erase_ne hne] at h
          exact ⟨e, h, rfl⟩
      · rcases eq_or_ne k key with rfl | hne
        · rw [AList.lookup_insert] at h
          obtain rfl := Option.some.inj h
          exact ⟨old, hlook, rfl⟩
        · rw [AList.lookup_insert_ne hne] at h
          exact ⟨e, h, rfl⟩

/-- An answer out of a cache is an intent that is in it. -/
theorem lookup_of_get {cache : IntentKvCache} {now : Nat} {key : UInt64} {hit : IntentSchema}
    (h : (cache.get now key).1 = some hit) :
    ∃ e, cache.entries.lookup key = some e ∧ e.schema = hit := by
  unfold IntentKvCache.get at h
  cases hlook : cache.entries.lookup key with
  | none =>
      rw [hlook] at h
      cases h
  | some e =>
      rw [hlook] at h
      simp only at h
      split_ifs at h
      exact ⟨e, rfl, Option.some.inj h⟩

/-- After an insert, there is the new intent under its key, and what was there before. -/
theorem lookup_insert {cache : IntentKvCache} {walk : HashOrder UInt64} {now : Nat}
    {key k : UInt64} {schema : IntentSchema} {e : CacheEntry}
    (h : (cache.insert walk now key schema).entries.lookup k = some e) :
    cache.entries.lookup k = some e ∨ k = key ∧ e.schema = schema := by
  unfold IntentKvCache.insert at h
  split_ifs at h
  · exact .inl h
  · rcases eq_or_ne k key with rfl | hne
    · rw [AList.lookup_insert] at h
      obtain rfl := Option.some.inj h
      exact .inr ⟨rfl, rfl⟩
    · left
      rw [AList.lookup_insert_ne hne] at h
      unfold IntentKvCache.makeRoom IntentKvCache.evictLru at h
      split_ifs at h
      · split at h
        · next oldest _ =>
            rcases eq_or_ne k oldest with rfl | hne
            · rw [AList.lookup_erase] at h
              cases h
            · rw [AList.lookup_erase_ne hne] at h
              exact h
        · exact h
      · exact h

theorem Provenance.get {calls : List ParserCall} {cache : IntentKvCache}
    (h : Provenance R hash calls cache) (now : Nat) (key : UInt64) :
    Provenance R hash calls (cache.get now key).2 := by
  intro k e he
  obtain ⟨old, hold, hsame⟩ := lookup_get he
  exact hsame ▸ h k old hold

/-- The answer to a request, by where it comes from. -/
inductive ParseCase (R : Reader) (hash : KeyHash) (cache : IntentKvCache) (r : ParseRequest) :
    Except IntentError ParseResult × IntentKvCache → Prop
  | blank : normalize r.rawInput = "" → ParseCase R hash cache r
      (.ok ⟨awaitInputForEmpty r.fresh r.rawInput r.session, false⟩, cache)
  | hit (e : CacheEntry) : cache.entries.lookup (r.key hash) = some e → ParseCase R hash cache r
      (.ok ⟨{ e.schema with rawInput := r.rawInput }, true⟩, (cache.get r.now (r.key hash)).2)
  | failed (e : IntentError) : ParseCase R hash cache r
      (.error e, (cache.get r.now (r.key hash)).2)
  | read (output : String) (schema : IntentSchema) : r.answer = .ok output →
      readAnswer R r.fresh output r = .ok schema → ParseCase R hash cache r
      (.ok ⟨schema, false⟩,
        (cache.get r.now (r.key hash)).2.insert r.walk r.answeredAt (r.key hash) schema)

theorem parse_case (cache : IntentKvCache) (r : ParseRequest) :
    ParseCase R hash cache r (parse R hash cache r) := by
  unfold parse
  split_ifs with hblank
  · exact .blank hblank
  · split
    · next hit behind hget =>
        obtain ⟨e, he, rfl⟩ := lookup_of_get (congrArg Prod.fst hget)
        obtain rfl : (cache.get r.now (r.key hash)).2 = behind := congrArg Prod.snd hget
        exact .hit e he
    · next behind hget =>
        obtain rfl : (cache.get r.now (r.key hash)).2 = behind := congrArg Prod.snd hget
        split
        · exact .failed _
        · next output hanswer =>
            split
            · exact .failed _
            · next schema hread => exact .read output schema hanswer hread

theorem Provenance.step {calls : List ParserCall} {cache : IntentKvCache}
    (h : Provenance R hash calls cache) (c : ParserCall) :
    Provenance R hash (calls ++ [c]) (parserStep R hash cache c) := by
  have hold : ∀ cache', Provenance R hash calls cache' → Provenance R hash (calls ++ [c]) cache' :=
    fun cache' h' k e he => (h' k e he).mono fun b hb => List.mem_append_left _ hb
  cases c with
  | parse r =>
      show Provenance R hash _ (parse R hash cache r).2
      have hcase : ParseCase R hash cache r (parse R hash cache r) := parse_case cache r
      generalize parse R hash cache r = result at hcase
      cases hcase with
      | blank hblank => exact hold _ h
      | hit e he => exact hold _ (h.get _ _)
      | failed e => exact hold _ (h.get _ _)
      | read output schema hanswer hread =>
          intro k e he
          rcases lookup_insert he with he | ⟨rfl, rfl⟩
          · exact hold _ (h.get _ _) k e he
          · exact ⟨r, output, List.mem_append_right _ List.mem_cons_self, rfl, hanswer, hread⟩
  | invalidateDomain domain =>
      intro k e he
      exact hold _ h k e (AList.mem_lookup_retain.mp he).1
  | invalidateAll =>
      intro k e he
      cases he

/-- Whatever was called, all intents in the cache stem from requests. -/
theorem stems_calls (calls : List ParserCall) :
    Provenance R hash calls (Run.after (parserStep R hash) .new calls) := by
  induction calls using List.reverseRecOn with
  | nil =>
      intro k e he
      cases he
  | append_singleton calls c ih =>
      rw [Run.after_append]
      exact ih.step c

/-! ## Hits -/

/-- What is read from an output differs between requests in what the request brings along. -/
theorem read_again {r : ParseRequest} {fresh : Uuid} {output : String} {schema : IntentSchema}
    (h : readAnswer R fresh output r = .ok schema) (fresh' : Uuid) (r' : ParseRequest) :
    readAnswer R fresh' output r' =
      .ok { schema with
        intentId := fresh', rawInput := r'.rawInput, sessionContext := r'.session } := by
  unfold readAnswer parseLlmOutputWithContext parseLlmOutputWithInjection at h ⊢
  split at h
  · cases h
  · next v hv =>
      have ha := (readIntent_ok_iff R).mp h
      exact (readIntent_ok_iff R).mpr ⟨ha.goal, ha.notBlank, ha.confidence, ha.ambiguityScore,
        ha.riskEstimate, ha.halPreScore, ha.candidateActions, ha.disambiguationRequired,
        ha.disambiguationQuestion, ha.asks, ha.domain, ha.source, ha.requiredContext,
        ha.escalateToCloud, rfl, rfl, rfl⟩

theorem session_of_read {r : ParseRequest} {fresh : Uuid} {output : String}
    {schema : IntentSchema} (h : readAnswer R fresh output r = .ok schema) :
    schema.sessionContext = r.session := by
  have hsame := h.symm.trans (read_again h fresh r)
  rw [Except.ok.inj hsame]

/-- Up to a fresh id, the intent is what the output means for the request. -/
def Transparent (R : Reader) (output : String) (r : ParseRequest) (schema : IntentSchema) :
    Prop :=
  ∀ fresh, readAnswer R fresh output r = .ok { schema with intentId := fresh }

/-- A hit after any calls was read for an earlier request with the same key, and now has the
words of the new one.  It is what the model's output means for the new request exactly when the
earlier one came with the same session. -/
theorem transparent_iff (calls : List ParserCall) (r : ParseRequest) (schema : IntentSchema)
    (h : (parse R hash (Run.after (parserStep R hash) .new calls) r).1 = .ok ⟨schema, true⟩) :
    ∃ first output stored, .parse first ∈ calls ∧ first.key hash = r.key hash ∧
      first.answer = .ok output ∧ readAnswer R first.fresh output first = .ok stored ∧
      schema = { stored with rawInput := r.rawInput } ∧
      (Transparent R output r schema ↔ first.session = r.session) := by
  have hcase : ParseCase R hash (Run.after (parserStep R hash) .new calls) r
      (parse R hash (Run.after (parserStep R hash) .new calls) r) := parse_case _ r
  generalize parse R hash (Run.after (parserStep R hash) .new calls) r = result at h hcase
  cases hcase with
  | blank hblank => cases h
  | failed e => cases h
  | read output schema hanswer hread => cases h
  | hit e he =>
      cases h
      obtain ⟨first, output, hfirst, hkey, hanswer, hread⟩ := stems_calls calls _ e he
      refine ⟨first, output, e.schema, hfirst, hkey, hanswer, hread, rfl, ?_⟩
      have hsession := session_of_read hread
      constructor
      · intro htransparent
        have hsame := (htransparent .nil).symm.trans (read_again hread .nil r)
        have hstamped := congrArg IntentSchema.sessionContext (Except.ok.inj hsame)
        exact hsession.symm.trans hstamped
      · intro heq fresh
        rw [read_again hread fresh r, ← heq, ← hsession]

theorem get_of_lookup {cache : IntentKvCache} {now : Nat} {key : UInt64} {e : CacheEntry}
    (h : cache.entries.lookup key = some e) (hfresh : stale e.createdAt now = false) :
    (cache.get now key).1 = some e.schema := by
  unfold IntentKvCache.get
  rw [h]
  simp only [hfresh]
  rfl

theorem parse_hit {cache : IntentKvCache} {r : ParseRequest} {hit : IntentSchema}
    (hblank : normalize r.rawInput ≠ "") (h : (cache.get r.now (r.key hash)).1 = some hit) :
    (parse R hash cache r).1 = .ok ⟨{ hit with rawInput := r.rawInput }, true⟩ := by
  unfold parse
  rw [if_neg hblank]
  cases hget : cache.get r.now (r.key hash) with
  | mk found behind =>
      rw [hget] at h
      obtain rfl : found = some hit := h
      rfl

/-- What was read with a high confidence is what a request with the same key is answered. -/
theorem hit_after {r r' : ParseRequest} {output : String} {schema : IntentSchema}
    (hanswer : r.answer = .ok output) (hread : readAnswer R r.fresh output r = .ok schema)
    (hblank : normalize r.rawInput ≠ "") (hconfident : ¬ schema.confidence < minConfidenceToCache)
    (hkey : r'.key hash = r.key hash) (hblank' : normalize r'.rawInput ≠ "")
    (hfresh : stale r.answeredAt r'.now = false) :
    (parse R hash (Run.after (parserStep R hash) .new [.parse r]) r').1 =
      .ok ⟨{ schema with rawInput := r'.rawInput }, true⟩ := by
  have hfirst : Run.after (parserStep R hash) .new [.parse r] =
      IntentKvCache.new.insert r.walk r.answeredAt (r.key hash) schema := by
    show (parse R hash .new r).2 = _
    have hnone : IntentKvCache.new.get r.now (r.key hash) = (none, .new) := rfl
    simp only [parse, if_neg hblank, hnone, hanswer, hread]
  have hlook : (IntentKvCache.new.insert r.walk r.answeredAt (r.key hash) schema).entries.lookup
      (r.key hash) = some ⟨schema, 0, r.answeredAt, r.answeredAt⟩ := by
    rw [IntentKvCache.insert, if_neg hconfident]
    exact AList.lookup_insert _
  rw [hfirst]
  refine parse_hit hblank' ?_
  rw [hkey]
  exact get_of_lookup hlook hfresh

end Provenance

/-! A request, and the same request five minutes later. -/

def askOpen (time : String) (now : Nat) : ParseRequest where
  rawInput := "open a.txt"
  session := { session with currentTime := time }
  hour := 12
  weekday := 0
  now := now
  answeredAt := now
  walk := .listed _
  fresh := .nil
  infer := fun _ _ => .ok openFile.print

theorem exists_askOpen (time : String) : ∃ s,
    readAnswer Reader.sample .nil openFile.print (askOpen "12:00" 0) = .ok s ∧
    s.candidateActions.map (fun c => (c.action, c.target)) = [("open_files", "a.txt")] ∧
    (parse Reader.sample (fun _ _ _ _ => 0)
        (Run.after (parserStep Reader.sample fun _ _ _ _ => 0) .new [.parse (askOpen "12:00" 0)])
        (askOpen time 300)).1 = .ok ⟨s, true⟩ := by
  obtain ⟨s, hs, -, -, -, hcandidates, -⟩ := exists_output _ _ _ "open a.txt"
    (rfl : _ = openFile) (by decide) (by decide) (by decide) (by decide)
  have hread : Reader.sample.fromStr openFile.print = some openFile :=
    Reader.sample.fromStr_print (by decide) (by decide)
  have hconfidence := (accepted_of_parsed hread hs).confidence
  have hnine : parseF32 Reader.sample openFile "confidence" = .ok (FloatText.narrow 0.9) := by
    decide
  have hs' : readAnswer Reader.sample .nil openFile.print (askOpen "12:00" 0) = .ok s := hs
  have hblank : normalize "open a.txt" ≠ "" := by decide
  have hconfident : ¬ s.confidence < minConfidenceToCache := by
    rw [← Except.ok.inj (hnine.symm.trans hconfidence)]
    decide
  have hfresh : stale 0 300 = false := by decide
  have hhit : (parse Reader.sample (fun _ _ _ _ => 0)
      (Run.after (parserStep Reader.sample fun _ _ _ _ => 0) .new [.parse (askOpen "12:00" 0)])
      (askOpen time 300)).1 = .ok ⟨{ s with rawInput := (askOpen time 300).rawInput }, true⟩ :=
    hit_after rfl hs' hblank hconfident rfl hblank hfresh
  refine ⟨s, hs', hcandidates, ?_⟩
  have hraw : (askOpen time 300).rawInput = s.rawInput :=
    (accepted_of_parsed hread hs).rawInput.symm
  rw [hhit, hraw]

/-- Asked again with the same session. -/
theorem transparent_askOpen : ∃ output schema,
    Transparent Reader.sample output (askOpen "12:00" 300) schema := by
  obtain ⟨s, -, -, hhit⟩ := exists_askOpen "12:00"
  obtain ⟨first, output, stored, hfirst, -, -, -, -, hiff⟩ := transparent_iff _ _ _ hhit
  have hsame : first = askOpen "12:00" 0 := ParserCall.parse.inj (List.mem_singleton.mp hfirst)
  refine ⟨output, s, hiff.mpr ?_⟩
  rw [hsame]
  rfl

/-- Asked again, what comes back still says that it is twelve. -/
theorem not_transparent_later : ¬ ∀ (R : Reader) (hash : KeyHash) (calls : List ParserCall)
    (r : ParseRequest) (schema : IntentSchema),
    (parse R hash (Run.after (parserStep R hash) .new calls) r).1 = .ok ⟨schema, true⟩ →
    ∀ first output stored, .parse first ∈ calls → first.answer = .ok output →
      readAnswer R first.fresh output first = .ok stored →
      schema = { stored with rawInput := r.rawInput } → Transparent R output r schema := by
  intro h
  obtain ⟨s, hs, -, hhit⟩ := exists_askOpen "12:05"
  have hraw : (askOpen "12:05" 300).rawInput = s.rawInput := by
    have hsame := hs.symm.trans (read_again hs .nil (askOpen "12:00" 0))
    exact (congrArg IntentSchema.rawInput (Except.ok.inj hsame)).symm
  have htransparent := h _ _ _ _ _ hhit (askOpen "12:00" 0) openFile.print s List.mem_cons_self rfl
    hs (by rw [hraw])
  have hnow := session_of_read (htransparent .nil)
  have hthen := session_of_read hs
  have htime : "12:00" = "12:05" := congrArg SessionContext.currentTime (hthen.symm.trans hnow)
  exact absurd htime (by decide)

end IntentEngine

/-
# `Cognos.System.PipelineMetrics` — what the counters count

`pipeline_metrics.rs`: every daemon keeps counters of what passes through it.  HAL counts the
outcomes of its gate; the intent engine counts its requests, and in the parser the look-ups in
the cache and the answers of the keyword backend.  The counters are of 64 bits and wrap around.

    parseCounted_eq   counting changes nothing of a parse
    requests_run      every request is blank, a hit or a miss, and a miss with the model down is
                      a fallback
    gate_run          every gate call is granted, denied or sent to a human
-/
import Mathlib
import Cognos.Hal.PolicyGate
import Cognos.IntentEngine.HttpBackend
import Cognos.Lib.Run

namespace System

open Hal (evaluate)
open IntentEngine
open Ipc (HalGateRequest)
open Json (Reader NumLit)

/-! ## The registry -/

structure MetricsRegistry where
  halGranted : UInt64
  halDenied : UInt64
  halApprovalRequired : UInt64
  parserCacheHits : UInt64
  parserCacheMisses : UInt64
  parserFallbackUses : UInt64
  intentRequests : UInt64

namespace MetricsRegistry

def new : MetricsRegistry := ⟨0, 0, 0, 0, 0, 0, 0⟩

variable (m : MetricsRegistry)

def recordHalGranted : MetricsRegistry := { m with halGranted := m.halGranted + 1 }

def recordHalDenied : MetricsRegistry := { m with halDenied := m.halDenied + 1 }

def recordHalApprovalRequired : MetricsRegistry :=
  { m with halApprovalRequired := m.halApprovalRequired + 1 }

def recordHalStatus (status : String) : MetricsRegistry :=
  if status = "granted" then m.recordHalGranted
  else if status = "denied" ∨ status = "failed" then m.recordHalDenied
  else if status = "approval_required" then m.recordHalApprovalRequired
  else m

def recordParserCacheHit : MetricsRegistry := { m with parserCacheHits := m.parserCacheHits + 1 }

def recordParserCacheMiss : MetricsRegistry :=
  { m with parserCacheMisses := m.parserCacheMisses + 1 }

def recordParserFallback : MetricsRegistry :=
  { m with parserFallbackUses := m.parserFallbackUses + 1 }

def recordIntentRequest : MetricsRegistry := { m with intentRequests := m.intentRequests + 1 }

end MetricsRegistry

/-! ## The gate -/

/-- The gate counts the outcome of each call. -/
def gateStep (m : MetricsRegistry) (call : String × HalGateRequest) : MetricsRegistry :=
  m.recordHalStatus (evaluate call.1 call.2).status

/-! ## The intent daemon -/

section Daemon

variable (R : Reader) (hash : KeyHash) (keyword : Infer)

/-- `FallbackBackend::infer`, which counts the answers of the keyword backend. -/
def inferCounted (m : MetricsRegistry) (primary : String → SessionContext → Except String String)
    (words : String) (session : SessionContext) :
    Option (Except String String) × MetricsRegistry :=
  match primary words session with
  | .ok output => (some (.ok output), m)
  | .error primaryErr =>
      match keyword words session with
      | none => (none, m)
      | some (.error keywordErr) => (some (.error ("intent inference failed: primary backend (" ++
          primaryErr ++ "); keyword fallback also failed (" ++ keywordErr ++ ")")), m)
      | some (.ok out) => (some (.ok out), m.recordParserFallback)

/-- `IntentParser::parse` as the daemon runs it: `infer` of the request is its primary backend.
There is no answer when the keyword backend panics. -/
def parseCounted (cache : IntentKvCache) (m : MetricsRegistry) (r : ParseRequest) :
    Option (Except IntentError ParseResult) × IntentKvCache × MetricsRegistry :=
  if normalize r.rawInput = "" then
    (some (.ok ⟨awaitInputForEmpty r.fresh r.rawInput r.session, false⟩), cache, m)
  else
    match cache.get r.now (r.key hash) with
    | (some hit, cache) =>
        (some (.ok ⟨{ hit with rawInput := r.rawInput }, true⟩), cache, m.recordParserCacheHit)
    | (none, cache) =>
        match inferCounted keyword m.recordParserCacheMiss r.infer (normalize r.rawInput)
          r.session with
        | (none, m) => (none, cache, m)
        | (some (.error e), m) => (some (.error (.inference e)), cache, m)
        | (some (.ok llmJson), m) =>
            match readAnswer R r.fresh llmJson r with
            | .error e => (some (.error (.schema e)), cache, m)
            | .ok schema => (some (.ok ⟨schema, false⟩),
                cache.insert r.walk r.answeredAt (r.key hash) schema, m)

end Daemon

/-- A request of the daemon: `infer` is its primary backend, `keywordId` the id the keyword
backend would mint. -/
structure DaemonRequest extends ParseRequest where
  keywordId : Uuid

/-- The handler counts a request and has it parsed. -/
def daemonStep (R : Reader) (hash : KeyHash) (printF32 : Float32 → NumLit)
    (s : IntentKvCache × MetricsRegistry) (r : DaemonRequest) : IntentKvCache × MetricsRegistry :=
  (parseCounted R hash (KeywordBackend.infer printF32 r.keywordId) s.1 s.2.recordIntentRequest
    r.toParseRequest).2

/-! ## What becomes of a request -/

inductive Outcome
  | blank
  | hit
  /-- Not in the cache; `fallback` when the primary backend fails. -/
  | miss (fallback : Bool)
deriving DecidableEq

/-- The primary backend has no answer. -/
def down (r : ParseRequest) : Bool :=
  match r.answer with
  | .ok _ => false
  | .error _ => true

def outcome (hash : KeyHash) (cache : IntentKvCache) (r : ParseRequest) : Outcome :=
  if normalize r.rawInput = "" then .blank
  else if (cache.get r.now (r.key hash)).1.isSome then .hit
  else .miss (down r)

def MetricsRegistry.counted (m : MetricsRegistry) : Outcome → MetricsRegistry
  | .blank => m
  | .hit => m.recordParserCacheHit
  | .miss false => m.recordParserCacheMiss
  | .miss true => m.recordParserCacheMiss.recordParserFallback

def Outcome.missed : Outcome → Bool
  | .miss _ => true
  | _ => false

section Served

variable (R : Reader) (hash : KeyHash) (printF32 : Float32 → NumLit)

/-- The request with the answer of the stack for that of its primary backend. -/
def answered (r : DaemonRequest) : ParseRequest :=
  { r.toParseRequest with infer := fun words session => (FallbackBackend.infer r.infer
      (KeywordBackend.infer printF32 r.keywordId) words session).getD (.error "") }

/-- The parser that counts nothing. -/
def plainStep (cache : IntentKvCache) (r : DaemonRequest) : IntentKvCache :=
  (parse R hash cache (answered printF32 r)).2

variable {R hash printF32}

/-- The stack, counted: on words that are not blank the keyword backend has an answer. -/
theorem inferCounted_eq (m : MetricsRegistry) {r : DaemonRequest} (h : normalize r.rawInput ≠ "") :
    inferCounted (KeywordBackend.infer printF32 r.keywordId) m r.infer (normalize r.rawInput)
      r.session = (some (answered printF32 r).answer,
        if down r.toParseRequest then m.recordParserFallback else m) := by
  obtain ⟨json, hjson⟩ := exists_infer printF32 r.keywordId h r.session
  have hanswer : (answered printF32 r).answer = (FallbackBackend.infer r.infer
      (KeywordBackend.infer printF32 r.keywordId) (normalize r.rawInput) r.session).getD
        (.error "") := rfl
  have hdown : down r.toParseRequest = match r.infer (normalize r.rawInput) r.session with
      | .ok _ => false
      | .error _ => true := rfl
  rw [hanswer, hdown, inferCounted, FallbackBackend.infer, hjson]
  cases r.infer (normalize r.rawInput) r.session with
  | ok output => rfl
  | error e => rfl

/-- Counting changes nothing of a parse, and counts what becomes of it. -/
theorem parseCounted_eq (cache : IntentKvCache) (m : MetricsRegistry) (r : DaemonRequest) :
    parseCounted R hash (KeywordBackend.infer printF32 r.keywordId) cache m r.toParseRequest =
      (some (parse R hash cache (answered printF32 r)).1,
        plainStep R hash printF32 cache r, m.counted (outcome hash cache r.toParseRequest)) := by
  have hkey : (answered printF32 r).key hash = r.key hash := rfl
  rw [parseCounted, plainStep, parse, outcome, hkey]
  by_cases hblank : normalize r.rawInput = ""
  · rw [if_pos hblank, if_pos hblank, if_pos (show normalize
      (answered printF32 r).rawInput = "" from hblank)]
    rfl
  · rw [if_neg hblank, if_neg hblank, if_neg (show ¬ normalize
      (answered printF32 r).rawInput = "" from hblank), inferCounted_eq _ hblank]
    have hnow : (answered printF32 r).now = r.now := rfl
    rw [hnow]
    generalize cache.get r.now (r.key hash) = found
    obtain ⟨hit, behind⟩ := found
    cases hit with
    | some schema => rfl
    | none =>
        have hcount : (if down r.toParseRequest then m.recordParserCacheMiss.recordParserFallback
            else m.recordParserCacheMiss) = m.counted (.miss (down r.toParseRequest)) := by
          cases down r.toParseRequest <;> rfl
        simp only [hcount]
        cases (answered printF32 r).answer with
        | error e => rfl
        | ok output =>
            have hread : readAnswer R (answered printF32 r).fresh output
                (answered printF32 r) = readAnswer R r.fresh output r.toParseRequest := rfl
            simp only [hread]
            cases readAnswer R r.fresh output r.toParseRequest with
            | error e => rfl
            | ok schema => rfl

theorem daemonStep_eq (s : IntentKvCache × MetricsRegistry) (r : DaemonRequest) :
    daemonStep R hash printF32 s r =
      (plainStep R hash printF32 s.1 r,
        s.2.recordIntentRequest.counted (outcome hash s.1 r.toParseRequest)) := by
  rw [daemonStep, parseCounted_eq]

theorem daemonStep_fst (s : IntentKvCache × MetricsRegistry) (r : DaemonRequest) :
    (daemonStep R hash printF32 s r).1 = plainStep R hash printF32 s.1 r := by
  rw [daemonStep_eq]

/-- A counter that some outcomes raise, after requests. -/
theorem counter_requests {counter : MetricsRegistry → UInt64} {p : Outcome → Bool}
    (hcounter : ∀ m o, counter (m.recordIntentRequest.counted o) =
      counter m + UInt64.ofNat (p o).toNat) (hnew : counter .new = 0) (rs : List DaemonRequest) :
    counter (Run.after (daemonStep R hash printF32) (.new, .new) rs).2 =
      UInt64.ofNat (Run.tally (plainStep R hash printF32)
        (fun cache r => p (outcome hash cache r.toParseRequest)) .new rs) := by
  have hstep : ∀ (s : IntentKvCache × MetricsRegistry) (r : DaemonRequest),
      counter (daemonStep R hash printF32 s r).2 =
        counter s.2 + UInt64.ofNat (p (outcome hash s.1 r.toParseRequest)).toNat := by
    intro s r
    rw [daemonStep_eq, hcounter]
  have hrun := Run.counter_after (fun s => counter s.2) hstep (.new, .new) rs
  rw [Run.tally_map daemonStep_fst (fun cache r => p (outcome hash cache r.toParseRequest))] at hrun
  rw [hrun, hnew, UInt64.zero_add]

theorem hits_counted (m : MetricsRegistry) (o : Outcome) :
    (m.recordIntentRequest.counted o).parserCacheHits =
      m.parserCacheHits + UInt64.ofNat (o == .hit).toNat := by
  rcases o with _ | _ | (_ | _)
  · exact (UInt64.add_zero _).symm
  · rfl
  · exact (UInt64.add_zero _).symm
  · exact (UInt64.add_zero _).symm

theorem misses_counted (m : MetricsRegistry) (o : Outcome) :
    (m.recordIntentRequest.counted o).parserCacheMisses =
      m.parserCacheMisses + UInt64.ofNat o.missed.toNat := by
  rcases o with _ | _ | (_ | _)
  · exact (UInt64.add_zero _).symm
  · exact (UInt64.add_zero _).symm
  · rfl
  · rfl

theorem fallbacks_counted (m : MetricsRegistry) (o : Outcome) :
    (m.recordIntentRequest.counted o).parserFallbackUses =
      m.parserFallbackUses + UInt64.ofNat (o == .miss true).toNat := by
  rcases o with _ | _ | (_ | _)
  · exact (UInt64.add_zero _).symm
  · exact (UInt64.add_zero _).symm
  · exact (UInt64.add_zero _).symm
  · rfl

theorem requests_counted (m : MetricsRegistry) (o : Outcome) :
    (m.recordIntentRequest.counted o).intentRequests = m.intentRequests + 1 := by
  rcases o with _ | _ | (_ | _)
  all_goals rfl

/-- Whatever the requests and whatever their primary backends say: each request is blank, found
in the cache or missed there, the counters say how many, and the fallbacks are the misses whose
primary backend fails.  The cache behind them is the one without counters. -/
theorem requests_run (rs : List DaemonRequest) :
    let times (p : Outcome → Bool) : Nat := Run.tally (plainStep R hash printF32)
      (fun cache r => p (outcome hash cache r.toParseRequest)) .new rs
    let s := Run.after (daemonStep R hash printF32) (.new, .new) rs
    s.1 = Run.after (plainStep R hash printF32) .new rs ∧
    s.2.intentRequests = UInt64.ofNat rs.length ∧
    s.2.parserCacheHits = UInt64.ofNat (times (· == .hit)) ∧
    s.2.parserCacheMisses = UInt64.ofNat (times Outcome.missed) ∧
    s.2.parserFallbackUses = UInt64.ofNat (times (· == .miss true)) ∧
    times (· == .blank) + times (· == .hit) + times Outcome.missed = rs.length := by
  intro times s
  refine ⟨?_, ?_, counter_requests hits_counted rfl rs, counter_requests misses_counted rfl rs,
    counter_requests fallbacks_counted rfl rs, ?_⟩
  · refine Run.related _ (R := fun (s : IntentKvCache × MetricsRegistry) cache => s.1 = cache) ?_
      rfl rs
    rintro s _ r rfl
    exact daemonStep_fst s r
  · have hcount : s.2.intentRequests = UInt64.ofNat (times fun _ => true) :=
      counter_requests (p := fun _ => true) requests_counted rfl rs
    rw [hcount]
    exact congrArg UInt64.ofNat (Run.tally_true _ rs)
  · have hmet : times (fun o => o == .blank || o == .hit) + times Outcome.missed =
        times fun _ => true := by
      refine Run.tally_add ?_ _ rs
      intro cache r
      rcases outcome hash cache r.toParseRequest with _ | _ | _
      all_goals rfl
    have hfound : times (· == .blank) + times (· == .hit) =
        times fun o => o == .blank || o == .hit := by
      refine Run.tally_add ?_ _ rs
      intro cache r
      rcases outcome hash cache r.toParseRequest with _ | _ | _
      all_goals rfl
    rw [hfound, hmet]
    exact Run.tally_true _ rs

end Served

/-! ## The counters of the gate -/

theorem gateStep_eq (m : MetricsRegistry) (call : String × HalGateRequest) :
    (gateStep m call).halGranted =
        m.halGranted + UInt64.ofNat ((evaluate call.1 call.2).status == "granted").toNat ∧
      (gateStep m call).halDenied =
        m.halDenied + UInt64.ofNat ((evaluate call.1 call.2).status == "denied").toNat ∧
      (gateStep m call).halApprovalRequired = m.halApprovalRequired +
        UInt64.ofNat ((evaluate call.1 call.2).status == "approval_required").toNat ∧
      ((evaluate call.1 call.2).status == "granted").toNat +
        ((evaluate call.1 call.2).status == "denied").toNat +
        ((evaluate call.1 call.2).status == "approval_required").toNat = 1 := by
  rw [gateStep, Hal.evaluate_status, Hal.statusFor]
  split_ifs
  all_goals simp [MetricsRegistry.recordHalStatus, MetricsRegistry.recordHalGranted,
    MetricsRegistry.recordHalDenied, MetricsRegistry.recordHalApprovalRequired]

/-- Every call of the gate is counted once, as granted, denied or sent to a human. -/
theorem gate_run (calls : List (String × HalGateRequest)) :
    let ended (status : String) : Nat :=
      calls.countP fun call => (evaluate call.1 call.2).status == status
    let m := Run.after gateStep .new calls
    m.halGranted = UInt64.ofNat (ended "granted") ∧ m.halDenied = UInt64.ofNat (ended "denied") ∧
      m.halApprovalRequired = UInt64.ofNat (ended "approval_required") ∧
      ended "granted" + ended "denied" + ended "approval_required" = calls.length := by
  intro ended m
  have hrun : ∀ (counter : MetricsRegistry → UInt64) (status : String), counter .new = 0 →
      (∀ m call, counter (gateStep m call) =
        counter m + UInt64.ofNat ((evaluate call.1 call.2).status == status).toNat) →
      counter m = UInt64.ofNat (ended status) := by
    intro counter status hnew hstep
    have h := Run.counter_after counter hstep .new calls
    rw [Run.tally_forget fun call : String × HalGateRequest =>
      (evaluate call.1 call.2).status == status] at h
    rw [h, hnew, UInt64.zero_add]
  refine ⟨hrun _ _ rfl fun m call => (gateStep_eq m call).1,
    hrun _ _ rfl fun m call => (gateStep_eq m call).2.1,
    hrun _ _ rfl fun m call => (gateStep_eq m call).2.2.1, ?_⟩
  clear hrun
  induction calls with
  | nil => rfl
  | cons call calls ih =>
      have hone := (gateStep_eq .new call).2.2.2
      have htoNat : ∀ status,
          (if ((evaluate call.1 call.2).status == status) = true then 1 else 0) =
            ((evaluate call.1 call.2).status == status).toNat := by
        intro status
        cases (evaluate call.1 call.2).status == status <;> rfl
      simp only [ended, List.countP_cons, htoNat, List.length_cons] at ih ⊢
      omega

end System

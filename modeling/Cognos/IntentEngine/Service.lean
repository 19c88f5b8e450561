/-
# `Cognos.IntentEngine.Service` — the answer to `DispatchIntent`

The handler of `intent_main.rs`: an utterance is parsed, a network goal is answered with
"unsupported", and every other intent with the graph of its actions, sent over the wire in
execution order.  The parser is a parameter: an intent, or the text of an error.  So are the
ids that are minted, the clock and the orders in which maps are walked.

Nothing else is asked about an intent before it is answered: not whether its ambiguity was
resolved, nor what its candidates are called.

    exists_graph   an answer that is "ok" lists what the intent lists: its candidates, or
                   its goal when there are none
    blocked_iff    nothing unsupported is in it when the intent lists nothing unsupported,
                   or its goal is one for the network
-/
import Mathlib
import Cognos.Ipc.Wire
import Cognos.IntentEngine.AcceptedIntents
import Cognos.IntentEngine.ActionGraph

namespace IntentEngine

open Ipc (IntentActionNode IntentActionEdge IntentActionGraph IntentResponse ProtoIntent)
open FloatText (widen)
open Json (Value Reader)

/-! ## Goals that are not executed -/

/-- Network goals: recognized by the parser, no way through HAL. -/
def nonExecutableNetworkGoalsV1 : List String := ["network_download", "network_send"]

def nonExecutableV1Message : String := "goal reconnu mais non supporté en v1"

/-- The reason why a goal must not be dispatched. -/
def nonExecutableReason (goal : String) : Option String :=
  if goal ∈ nonExecutableNetworkGoalsV1 then some nonExecutableV1Message else none

/-! ## Onto the wire -/

structure IntentSchemaProto where
  intentId : String
  rawInput : String
  goal : String
  domain : String
  confidence : Float
  ambiguityScore : Float
  riskEstimate : Float
  requiredContext : List String
  disambiguationRequired : Bool
  disambiguationQuestion : String
  halPreScore : Float
  escalateToCloud : Bool
  source : String

def schemaToProto (schema : IntentSchema) : IntentSchemaProto where
  intentId := schema.intentId.text
  rawInput := schema.rawInput
  goal := schema.goal
  domain := schema.domain.getD ""
  confidence := widen schema.confidence
  ambiguityScore := widen schema.ambiguityScore
  riskEstimate := widen schema.riskEstimate
  requiredContext := schema.requiredContext
  disambiguationRequired := schema.disambiguationRequired
  disambiguationQuestion := schema.disambiguationQuestion.getD ""
  halPreScore := widen schema.halPreScore
  escalateToCloud := schema.escalateToCloud
  source := schema.source.getD ""

def nodeToProto (n : ActionNode) : IntentActionNode where
  nodeId := n.nodeId.text
  intentId := n.intentId.text
  action := n.action
  target := n.target
  confidence := widen n.confidence
  halPreScore := widen n.halPreScore

def edgeToProto (e : Uuid × Uuid) : IntentActionEdge := ⟨e.1.text, e.2.text⟩

/-- The graph on the wire; the schema that goes with it is a field of the reply. -/
def graphToProto (w : Walks) (graph : ActionGraph) : IntentActionGraph where
  nodes := (graph.ordered w).map nodeToProto
  deps := (graph.dependencies w).map edgeToProto

/-! ## The handler -/

/-- What the handler reads of a request. -/
structure Request extends ProtoIntent where
  action : String := ""
  argsJson : List UInt8 := []

/-- The answer; there is never a violation in it. -/
structure Reply where
  intentId : String
  status : String
  resultJson : List UInt8
  message : String
  completedAtNs : Nat
  actionGraph : Option IntentActionGraph
  /-- The schema in the action graph. -/
  carried : Option IntentSchemaProto
  traceId : String

/-- What the orchestrator reads of it. -/
def Reply.received (r : Reply) : IntentResponse := ⟨r.status, r.message, r.actionGraph⟩

/-- What one request sees of the outside. -/
structure ServiceWorld where
  freshTrace : Uuid
  parse : String → SessionContext → Except String IntentSchema
  sessionOf : List UInt8 → Option SessionContext
  currentTime : String
  nowNs : Nat
  toJson : IntentSchema → List UInt8
  freshNodes : Nat → Uuid
  walks : Walks

def vllmSource : String := "vllm"

/-- The free-text utterance, or else the canonical action. -/
def Request.rawInput (intent : Request) : String :=
  if intent.utterance ≠ "" then intent.utterance else intent.action

/-- The session in the arguments, or one of this minute. -/
def buildSession (w : ServiceWorld) (intent : Request) : SessionContext :=
  ((if intent.argsJson ≠ [] then w.sessionOf intent.argsJson else none)).getD
    ⟨none, [], w.currentTime, none⟩

/-- The vLLM backend stamps its name, but not over the keyword fallback's. -/
def stampSource (stampsVllmSource : Bool) (schema : IntentSchema) : IntentSchema :=
  if stampsVllmSource && schema.source != some keywordFallbackSource then
    { schema with source := some vllmSource }
  else schema

/-- The id of the request, or else of the schema. -/
def replyId (intent : Request) (schema : IntentSchema) : String :=
  if intent.intentId ≠ "" then intent.intentId else schema.intentId.text

/-- The answer to an intent that was parsed. -/
def answer (w : ServiceWorld) (intent : Request) (traceId : String) (schema : IntentSchema) :
    Reply :=
  match nonExecutableReason schema.goal with
  | some reason =>
      { intentId := replyId intent schema
        status := "unsupported"
        resultJson := w.toJson schema
        message := reason ++ ": " ++ schema.goal
        completedAtNs := w.nowNs
        actionGraph := none
        carried := none
        traceId := traceId }
  | none =>
      let graph := graphToProto w.walks (ActionGraph.fromSchema w.freshNodes schema)
      { intentId := replyId intent schema
        status := "ok"
        resultJson := w.toJson schema
        message := "parsed intent '" ++ schema.goal ++ "' into " ++ toString graph.nodes.length
          ++ " action(s)"
        completedAtNs := w.nowNs
        actionGraph := some graph
        carried := some (schemaToProto schema)
        traceId := traceId }

def handle (stampsVllmSource : Bool) (w : ServiceWorld) (intent : Request) : Reply :=
  let traceId := if intent.traceId = "" then w.freshTrace.text else intent.traceId
  match w.parse intent.rawInput (buildSession w intent) with
  | .ok schema => answer w intent traceId (stampSource stampsVllmSource schema)
  | .error e =>
      { intentId := intent.intentId
        status := "failed"
        resultJson := []
        message := "intent parse failed: " ++ e
        completedAtNs := w.nowNs
        actionGraph := none
        carried := none
        traceId := traceId }

/-! ## What an answer says -/

/-- Action and target of each node. -/
def pairs (graph : IntentActionGraph) : List (String × String) :=
  graph.nodes.map fun n => (n.action, n.target)

/-- What an intent lists to be done: its candidates, or else its goal. -/
def IntentSchema.listed (schema : IntentSchema) : List (String × String) :=
  if schema.candidateActions = [] then [(schema.goal, "")]
  else schema.candidateActions.map fun c => (c.action, c.target)

theorem stampSource_same (stamps : Bool) (schema : IntentSchema) :
    (stampSource stamps schema).goal = schema.goal ∧
      (stampSource stamps schema).candidateActions = schema.candidateActions := by
  unfold stampSource
  split_ifs
  · exact ⟨rfl, rfl⟩
  · exact ⟨rfl, rfl⟩

theorem listed_stampSource (stamps : Bool) (schema : IntentSchema) :
    (stampSource stamps schema).listed = schema.listed := by
  obtain ⟨hgoal, hcandidates⟩ := stampSource_same stamps schema
  rw [IntentSchema.listed, IntentSchema.listed, hgoal, hcandidates]

/-- Sent over the wire, the nodes of an intent's graph are what the intent lists. -/
theorem pairs_fromSchema {fresh : Nat → Uuid} {schema : IntentSchema}
    (hfresh : ActionGraph.DistinctIds fresh schema) (w : Walks) :
    (pairs (graphToProto w (.fromSchema fresh schema))).Perm schema.listed := by
  have hperm := (ActionGraph.ordered_fromSchema hfresh w).map fun n => (n.action, n.target)
  have hsent : pairs (graphToProto w (.fromSchema fresh schema)) =
      ((ActionGraph.fromSchema fresh schema).ordered w).map fun n => (n.action, n.target) := by
    rw [pairs, graphToProto, List.map_map]
    rfl
  have hlisted : (ActionGraph.planned fresh schema).map (fun n => (n.action, n.target)) =
      schema.listed := by
    unfold ActionGraph.planned IntentSchema.listed
    split_ifs with hempty
    · rfl
    · nth_rewrite 2 [← List.zipIdx_map_fst 0 schema.candidateActions]
      rw [List.map_map, List.map_map]
      rfl
  rw [hsent, ← hlisted]
  exact hperm

section Answers

variable (stamps : Bool) {w : ServiceWorld} {intent : Request} {schema : IntentSchema}

/-- The graph of an answer: none for a network goal, else that of the intent. -/
theorem answer_graph (traceId : String) :
    ((answer w intent traceId schema).status = "ok" ↔
        schema.goal ∉ nonExecutableNetworkGoalsV1) ∧
      (answer w intent traceId schema).actionGraph =
        if schema.goal ∈ nonExecutableNetworkGoalsV1 then none
        else some (graphToProto w.walks (.fromSchema w.freshNodes schema)) := by
  rw [answer, nonExecutableReason]
  by_cases hnetwork : schema.goal ∈ nonExecutableNetworkGoalsV1
  · rw [if_pos hnetwork, if_pos hnetwork]
    have hstatus : "unsupported" ≠ "ok" := by decide
    exact ⟨⟨fun hok => absurd hok hstatus, fun hnot => absurd hnetwork hnot⟩, rfl⟩
  · rw [if_neg hnetwork, if_neg hnetwork]
    exact ⟨⟨fun _ => hnetwork, fun _ => rfl⟩, rfl⟩

theorem handle_ok (h : w.parse intent.rawInput (buildSession w intent) = .ok schema) :
    handle stamps w intent =
      answer w intent (if intent.traceId = "" then w.freshTrace.text else intent.traceId)
        (stampSource stamps schema) := by
  simp only [handle, h]

theorem handle_parsed (h : w.parse intent.rawInput (buildSession w intent) = .ok schema) :
    ((handle stamps w intent).status = "ok" ↔ schema.goal ∉ nonExecutableNetworkGoalsV1) ∧
      (handle stamps w intent).actionGraph =
        if schema.goal ∈ nonExecutableNetworkGoalsV1 then none
        else
          some (graphToProto w.walks (.fromSchema w.freshNodes (stampSource stamps schema))) := by
  rw [handle_ok stamps h, ← (stampSource_same stamps schema).1]
  exact answer_graph _

theorem distinctIds_stampSource (h : ActionGraph.DistinctIds w.freshNodes schema) :
    ActionGraph.DistinctIds w.freshNodes (stampSource stamps schema) := by
  unfold ActionGraph.DistinctIds
  rw [(stampSource_same stamps schema).2]
  exact h

/-- An answer that is "ok" has a graph, and this lists what the intent lists. -/
theorem exists_graph (h : w.parse intent.rawInput (buildSession w intent) = .ok schema)
    (hfresh : ActionGraph.DistinctIds w.freshNodes schema)
    (hok : (handle stamps w intent).status = "ok") :
    ∃ graph, (handle stamps w intent).actionGraph = some graph ∧
      (pairs graph).Perm schema.listed := by
  obtain ⟨hstatus, hgraph⟩ := handle_parsed stamps h
  rw [if_neg (hstatus.mp hok)] at hgraph
  refine ⟨_, hgraph, ?_⟩
  rw [← listed_stampSource stamps]
  exact pairs_fromSchema (distinctIds_stampSource stamps hfresh) w.walks

/-! ## Goals without execution -/

/-- Waiting for input, and out of scope. -/
def metaGoals : List String := ["await_input", "out_of_scope"]

/-- Neither a network goal nor one without execution. -/
def Executable (action : String) : Prop := nonExecutableReason action = none ∧ action ∉ metaGoals

/-- Each node of an answer that is "ok" is executable. -/
def Blocked (r : Reply) : Prop :=
  r.status = "ok" → ∀ graph, r.actionGraph = some graph → ∀ n ∈ graph.nodes, Executable n.action

theorem nonExecutableReason_iff {goal : String} :
    nonExecutableReason goal = none ↔ goal ∉ nonExecutableNetworkGoalsV1 := by
  rw [nonExecutableReason, ite_eq_right_iff]
  exact ⟨fun h hmem => (nomatch h hmem), fun h hmem => absurd hmem h⟩

/-- What the orchestrator reads of an answer that is "ok". -/
theorem received_answer (hgoal : schema.goal ∉ nonExecutableNetworkGoalsV1) (traceId : String) :
    (answer w intent traceId schema).received =
      ⟨"ok", "parsed intent '" ++ schema.goal ++ "' into " ++
          toString (graphToProto w.walks (.fromSchema w.freshNodes schema)).nodes.length ++
          " action(s)",
        some (graphToProto w.walks (.fromSchema w.freshNodes schema))⟩ := by
  rw [answer, nonExecutableReason_iff.mpr hgoal]
  rfl

theorem forall_action_iff {graph : IntentActionGraph} {listed : List (String × String)}
    (h : (pairs graph).Perm listed) :
    (∀ n ∈ graph.nodes, Executable n.action) ↔ ∀ p ∈ listed, Executable p.1 := by
  rw [← List.forall_mem_map (f := fun n : IntentActionNode => (n.action, n.target))
    (P := fun p => Executable p.1)]
  exact ⟨fun hall p hp => hall p (h.mem_iff.mpr hp), fun hall p hp => hall p (h.mem_iff.mp hp)⟩

theorem forall_listed_iff (hgoal : schema.goal ∉ nonExecutableNetworkGoalsV1) :
    (∀ p ∈ schema.listed, Executable p.1) ↔
      (schema.candidateActions = [] → schema.goal ∉ metaGoals) ∧
        ∀ c ∈ schema.candidateActions, Executable c.action := by
  rw [IntentSchema.listed]
  split_ifs with hempty
  · rw [hempty, List.forall_mem_singleton]
    exact ⟨fun h => ⟨fun _ => h.2, fun c hc => nomatch hc⟩,
      fun h => ⟨nonExecutableReason_iff.mpr hgoal, h.1 rfl⟩⟩
  · rw [List.forall_mem_map]
    exact ⟨fun h => ⟨fun hnil => absurd hnil hempty, h⟩, fun h => h.2⟩

/-- Only the goal is looked at, and only for the network: what a candidate is called is not
asked, nor whether the goal that stands in for candidates is one without execution. -/
theorem blocked_iff (h : w.parse intent.rawInput (buildSession w intent) = .ok schema)
    (hfresh : ActionGraph.DistinctIds w.freshNodes schema) :
    Blocked (handle stamps w intent) ↔ schema.goal ∈ nonExecutableNetworkGoalsV1 ∨
      (schema.candidateActions = [] → schema.goal ∉ metaGoals) ∧
        ∀ c ∈ schema.candidateActions, Executable c.action := by
  have hstatus := (handle_parsed stamps h).1
  by_cases hgoal : schema.goal ∈ nonExecutableNetworkGoalsV1
  · exact ⟨fun _ => .inl hgoal, fun _ hok => absurd hgoal (hstatus.mp hok)⟩
  · have hok := hstatus.mpr hgoal
    obtain ⟨graph, hgraph, hperm⟩ := exists_graph stamps h hfresh hok
    rw [or_iff_right hgoal, ← forall_listed_iff hgoal, ← forall_action_iff hperm]
    constructor
    · intro hblocked
      exact hblocked hok graph hgraph
    · intro hall _ graph' hgraph'
      obtain rfl := Option.some.inj (hgraph.symm.trans hgraph')
      exact hall

end Answers

/-! Values to try this on: an output of the model, and a service that reads nothing else. -/

def listedCandidate (c : String × String) : Value :=
  .obj [("action", .str c.1), ("target", .str c.2), ("confidence", tenths 9),
    ("recency_score", tenths 5)]

def output (goal : String) (candidates : List (String × String)) (question : Option String) :
    Value :=
  .obj [("goal", .str goal), ("domain", .null), ("confidence", tenths 9),
    ("ambiguity_score", tenths 9), ("risk_estimate", tenths 1),
    ("required_context", .arr []), ("candidate_actions", .arr (candidates.map listedCandidate)),
    ("disambiguation_required", .bool question.isSome),
    ("disambiguation_question", question.elim .null .str), ("hal_pre_score", tenths 1)]

def readAs (v : Value) : ServiceWorld where
  freshTrace := .nil
  parse rawInput session :=
    (parseLlmOutputWithContext Reader.sample .nil v.print rawInput session).mapError fun e =>
      "schema error: " ++ e.text fun _ => ""
  sessionOf := fun _ => none
  currentTime := "12:00"
  nowNs := 0
  toJson := fun _ => []
  freshNodes := Uuid.numbered
  walks := .listed

def utter (utterance : String) : Request :=
  { intentId := "", utterance := utterance, sessionId := "" }

theorem parse_readAs {v : Value} {request : Request} {s : IntentSchema}
    (hargs : request.argsJson = [])
    (h : parseLlmOutputWithContext Reader.sample .nil v.print request.rawInput session = .ok s) :
    (readAs v).parse request.rawInput (buildSession (readAs v) request) = .ok s := by
  have hsession : buildSession (readAs v) request = session := by
    rw [buildSession, hargs]
    rfl
  rw [hsession]
  show (parseLlmOutputWithContext _ _ _ _ session).mapError _ = _
  rw [h]
  rfl

theorem readCandidate_listed (c : String × String) :
    ∃ x y, readCandidate Reader.sample (listedCandidate c) = some ⟨c.1, c.2, x, y⟩ :=
  ⟨_, _, rfl⟩

/-- An output that is accepted is read as it was put together. -/
theorem accepted_output {goal : String} {candidates : List (String × String)}
    {question : Option String} {injected : Option InjectedIntentFields} {s : IntentSchema}
    (h : Accepted Reader.sample .nil (output goal candidates question) injected s) :
    s.goal = goal ∧ s.candidateActions.map (fun c => (c.action, c.target)) = candidates ∧
      s.disambiguationRequired = question.isSome := by
  refine ⟨(Option.some.inj h.goal).symm, ?_, h.disambiguationRequired⟩
  obtain ⟨cas, hcas, hall⟩ := h.candidateActions
  obtain rfl : candidates.map listedCandidate = cas := Option.some.inj hcas
  rw [hall]
  clear h hcas hall
  induction candidates with
  | nil => rfl
  | cons c cs ih =>
      obtain ⟨x, y, hread⟩ := readCandidate_listed c
      rw [List.map_cons, List.filterMap_cons_some hread, List.map_cons, ih]

theorem distinctIds_numbered {schema : IntentSchema} (h : schema.candidateActions.length ≤ 16) :
    ActionGraph.DistinctIds Uuid.numbered schema := by
  intro i hi j hj heq
  have hdigit := (List.cons.inj (congrArg Uuid.digits heq)).1
  have hmod := congrArg Fin.val hdigit
  rw [Fin.val_ofNat, Fin.val_ofNat, Nat.mod_eq_of_lt (hi.trans_le h),
    Nat.mod_eq_of_lt (hj.trans_le h)] at hmod
  exact hmod

/-- The output is accepted, and read by the service as it was put together. -/
theorem exists_output {v : Value} (goal : String) (candidates : List (String × String))
    (question : Option String) (utterance : String) (hv : output goal candidates question = v)
    (hlength : candidates.length ≤ 16) (hdepth : v.depth ≤ 127)
    (hnums : v.numsAll Reader.sample.inRange = true)
    (h : (readIntent Reader.sample .nil v
      (some ⟨(utter utterance).rawInput, session⟩)).toOption.isSome = true) :
    ∃ s, parseLlmOutputWithContext Reader.sample .nil v.print (utter utterance).rawInput session =
        .ok s ∧
      (readAs v).parse (utter utterance).rawInput (buildSession (readAs v) (utter utterance)) =
        .ok s ∧
      ActionGraph.DistinctIds (readAs v).freshNodes s ∧ s.goal = goal ∧
      s.candidateActions.map (fun c => (c.action, c.target)) = candidates ∧
      s.disambiguationRequired = question.isSome := by
  obtain ⟨hread, s, hs⟩ := exists_parsed v _ hdepth hnums h
  have haccepted := accepted_of_parsed hread hs
  rw [← hv] at haccepted
  obtain ⟨hgoal, hcandidates, hrequired⟩ := accepted_output haccepted
  refine ⟨s, hs, ?_, distinctIds_numbered ?_, hgoal, hcandidates, hrequired⟩
  · exact parse_readAs rfl hs
  · rw [← List.length_map, hcandidates]
    exact hlength

def openFile : Value := output "open_file" [("open_files", "a.txt")] none

def outOfScope : Value := output "out_of_scope" [] none

theorem blocked_iff_openFile : ∃ s,
    parseLlmOutputWithContext Reader.sample .nil openFile.print "open a.txt" session = .ok s ∧
    Blocked (handle false (readAs openFile) (utter "open a.txt")) := by
  obtain ⟨s, hs, hparse, hfresh, -, hcandidates, -⟩ := exists_output _ _ _ "open a.txt"
    (rfl : _ = openFile) (by decide) (by decide) (by decide) (by decide +kernel)
  refine ⟨s, hs, (blocked_iff false hparse hfresh).mpr (.inr ⟨?_, ?_⟩)⟩
  · intro hempty
    rw [hempty] at hcandidates
    cases hcandidates
  · intro c hc
    have hmem := List.mem_map_of_mem (f := fun c : CandidateAction => (c.action, c.target)) hc
    rw [hcandidates, List.mem_singleton] at hmem
    have haction : c.action = "open_files" := congrArg Prod.fst hmem
    rw [haction]
    exact ⟨rfl, by decide⟩

/-- A joke is out of scope, and is sent to be executed under that name. -/
theorem not_blocked_outOfScope : ∃ s,
    parseLlmOutputWithContext Reader.sample .nil outOfScope.print "tell me a joke" session =
      .ok s ∧
    ¬ Blocked (handle false (readAs outOfScope) (utter "tell me a joke")) := by
  obtain ⟨s, hs, hparse, hfresh, hgoal, hcandidates, -⟩ := exists_output _ _ _ "tell me a joke"
    (rfl : _ = outOfScope) (by decide) (by decide) (by decide) (by decide +kernel)
  have hok : (handle false (readAs outOfScope) (utter "tell me a joke")).status = "ok" := by
    rw [(handle_parsed false hparse).1, hgoal]
    decide
  obtain ⟨graph, hgraph, hperm⟩ := exists_graph false hparse hfresh hok
  refine ⟨s, hs, fun hblocked => ?_⟩
  have hall := (forall_action_iff hperm).mp (hblocked hok graph hgraph)
  rw [IntentSchema.listed, if_pos (List.map_eq_nil_iff.mp hcandidates),
    List.forall_mem_singleton, hgoal] at hall
  exact hall.2 (by decide)

end IntentEngine

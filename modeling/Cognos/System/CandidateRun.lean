/-
# `Cognos.System.CandidateRun` — from the candidates of an intent to their execution

The utterance goes to the intent engine, which answers with a graph; the orchestrator makes a
plan of it and runs the plan.  A graph of candidates has no edges, and its nodes are sent by
action and target, so the order in which the candidates were listed is lost at once; which of
the tasks comes first is then up to the maps and the clock of the orchestrator.

When nothing goes wrong, what is executed is what was listed, each candidate once
(`candidates_executed`).
-/
import Mathlib
import Cognos.IntentEngine.Service
import Cognos.Orchestrator.GraphPlan
import Cognos.Orchestrator.GrantedRun

namespace System

open Orchestrator
open IntentEngine (ActionGraph ActionNode IntentSchema Request ServiceWorld Walks buildSession
  graphToProto handle nodeToProto pairs)
open IntentEngine (output readAs session readIntent parseLlmOutputWithContext
  parsed_of_read)
open FloatText (narrow widen)
open Json (Value Reader)
open Ipc (CognosClient IntentActionGraph IntentResponse outgoingTrace)

variable {Time : Type}

/-! ## Asking the service -/

/-- What the orchestrator sends for an utterance. -/
def sentRequest (intentId freshTrace : Uuid) (utterance userId : String) : Request :=
  { intentId := intentId.text
    utterance := utterance
    sessionId := userId
    traceId := outgoingTrace freshTrace "" }

/-- The orchestrator asks a service that reads the utterance as `schema`, and is answered "ok".
The ids that are minted differ. -/
structure Asks (rt : Runtime) (w : ExecWorld Time) (utterance userId : String) (stamps : Bool)
    (service : ServiceWorld) (schema : IntentSchema) (request : Request) : Prop where
  sent : request = sentRequest w.intentId w.submit.freshTrace utterance userId
  client : ∃ client : CognosClient, rt.intentClient = some client ∧ client.connected = true
  reply : w.submit.intentReply request.toProtoIntent = .ok (handle stamps service request).received
  parsed : service.parse request.rawInput (buildSession service request) = .ok schema
  ok : (handle stamps service request).status = "ok"
  nodes : ActionGraph.DistinctIds service.freshNodes schema
  tasks : ∀ i < schema.listed.length, ∀ j < schema.listed.length,
    minted w.submit i = minted w.submit j → i = j

section Plan

variable {service : ServiceWorld} {schema : IntentSchema}

theorem listed_ne_nil (schema : IntentSchema) : schema.listed ≠ [] := by
  rw [IntentSchema.listed]
  split_ifs with hempty
  · exact List.cons_ne_nil _ _
  · intro hnil
    exact hempty (List.map_eq_nil_iff.mp hnil)

/-- The graph of an intent becomes a plan without edges, for what the intent lists. -/
theorem exists_plan {fresh : Nat → Uuid} (hfresh : ActionGraph.DistinctIds fresh schema)
    (walks : Walks) : ∃ plan, protoGraphToPlan (graphToProto walks (.fromSchema fresh schema)) =
        .ok plan ∧ plan.edges = [] ∧ plan.nodes.map (·.pair) =
          pairs (graphToProto walks (.fromSchema fresh schema)) := by
  let graph := graphToProto walks (.fromSchema fresh schema)
  have hdeps : graph.deps = [] := by
    refine List.map_eq_nil_iff.mpr (List.eq_nil_iff_forall_not_mem.mpr fun e he => ?_)
    exact ActionGraph.not_dep_fromSchema hfresh e.1 e.2 (ActionGraph.mem_dependencies.mp he)
  have hperm := IntentEngine.pairs_fromSchema hfresh walks
  have hnodes : graph.nodes ≠ [] := by
    intro hnil
    have hlength := hperm.length_eq
    rw [pairs, List.length_map, hnil] at hlength
    exact listed_ne_nil schema (List.length_eq_zero_iff.mp hlength.symm)
  refine ⟨planOf graph.nodes [], protoGraphToPlan_ok_iff.mpr ⟨hnodes, [], ?_, ?_, rfl⟩, rfl, ?_⟩
  · show List.Forall₂ _ graph.deps []
    rw [hdeps]
    exact .nil
  · intro a ha
    obtain ⟨b, hab, -⟩ := Relation.TransGen.head'_iff.mp ha
    exact absurd hab List.not_mem_nil
  · show (graph.nodes.map plannedNode).map _ = graph.nodes.map _
    rw [List.map_map]
    rfl

theorem resolve_of_asks {rt : Runtime} {w : ExecWorld Time} {utterance userId : String}
    {stamps : Bool} {request : Request} {plan : DecompositionPlan} {graph : IntentActionGraph}
    (h : Asks rt w utterance userId stamps service schema request)
    (hgraph : (handle stamps service request).actionGraph = some graph)
    (hplan : protoGraphToPlan graph = .ok plan) :
    resolveDecomposition (resetExecutionState rt) w.submit
      (Intent.new w.intentId userId utterance) = .ok plan := by
  obtain ⟨client, hclient, hconnected⟩ := h.client
  have hreply := h.reply
  rw [h.sent] at hreply
  set intent := Intent.new w.intentId userId utterance
  have hdispatch : client.dispatchIntent w.submit.freshTrace w.submit.intentReply
      { intentId := intent.id.id.text, utterance := intent.text, sessionId := intent.userId } =
        .ok (handle stamps service request).received := by
    rw [CognosClient.dispatchIntent, if_pos hconnected]
    show (w.submit.intentReply (sentRequest w.intentId w.submit.freshTrace utterance
      userId).toProtoIntent).mapError _ = _
    rw [hreply, h.sent]
    rfl
  have hengine : decomposeViaIntentEngine client w.submit.freshTrace w.submit.intentReply
      intent = .ok plan := by
    unfold decomposeViaIntentEngine
    rw [hdispatch]
    show responseToPlan _ = _
    have hreceived : (handle stamps service request).received.actionGraph = some graph := hgraph
    unfold responseToPlan
    rw [if_neg fun hne => hne h.ok, hreceived]
    exact hplan
  have hpresent : (resetExecutionState rt).intentClient = some client := hclient
  unfold resolveDecomposition
  rw [hpresent]
  simp only [hengine]

end Plan

/-- When every gate grants and every execution succeeds, the report says success, and what was
executed is what the intent lists: each candidate once, in some order. -/
theorem candidates_executed {rt : Runtime} {w : ExecWorld Time} {utterance userId : String}
    (traceId : String) {stamps : Bool} {service : ServiceWorld} {schema : IntentSchema}
    {request : Request} (h : Asks rt w utterance userId stamps service schema request)
    (hgrants : Grants (submitAndExecute rt w utterance userId traceId).2.2)
    (hworks : Works w.round) (hrounds : schema.listed.length < w.rounds) :
    ∃ report, (submitAndExecute rt w utterance userId traceId).1 = some (.ok report) ∧
      report.success = true ∧
      List.Forall₂ (fun task id => task.taskId = id.id.text) report.tasks
        (executed (submitAndExecute rt w utterance userId traceId).2.2) ∧
      (report.tasks.map (·.pair)).Perm schema.listed := by
  have hstamped := IntentEngine.distinctIds_stampSource stamps h.nodes
  obtain ⟨plan, hplan, hedges, hpairs⟩ := exists_plan hstamped service.walks
  have hperm := IntentEngine.pairs_fromSchema hstamped service.walks
  rw [IntentEngine.listed_stampSource, ← hpairs] at hperm
  have hlength : plan.nodes.length = schema.listed.length := by
    rw [← hperm.length_eq, List.length_map]
  obtain ⟨hstatus, hgraph⟩ := IntentEngine.handle_parsed stamps h.parsed
  rw [if_neg (hstatus.mp h.ok)] at hgraph
  have hresolve := resolve_of_asks h hgraph hplan
  have hdistinct := h.tasks
  rw [← hlength] at hdistinct hrounds
  have hnodes : plan.nodes ≠ [] := by
    rintro hnil
    rw [hnil] at hlength
    exact listed_ne_nil schema (List.length_eq_zero_iff.mp hlength.symm)
  obtain ⟨root, hsubmit⟩ := exists_root rfl hresolve hdistinct hnodes hedges
  obtain ⟨report, hreport, hsuccess, hrecords, hexecuted⟩ :=
    report_granted rt w utterance userId traceId hresolve hdistinct hsubmit hgrants hworks hrounds
  refine ⟨report, hreport, hsuccess, ?_, hexecuted.trans hperm⟩
  refine List.Forall₂.imp ?_ hrecords
  rintro task id ⟨i, -, htask, -⟩
  exact htask

/-! "find and open notes": a search, then what it finds is opened. -/

def twoSteps : Value :=
  output "open_file" [("search_files", "notes"), ("open_files", "notes.txt")] none

def twoStepsIntent : IntentSchema where
  intentId := .nil
  rawInput := "find and open notes"
  goal := "open_file"
  domain := none
  confidence := narrow 0.9
  ambiguityScore := narrow 0.9
  riskEstimate := narrow 0.1
  requiredContext := []
  candidateActions := [⟨"search_files", "notes", narrow 0.9, narrow 0.5⟩,
    ⟨"open_files", "notes.txt", narrow 0.9, narrow 0.5⟩]
  disambiguationRequired := false
  disambiguationQuestion := none
  sessionContext := session
  halPreScore := narrow 0.1
  escalateToCloud := false
  source := none

theorem parsed_twoSteps : parseLlmOutputWithContext Reader.sample .nil twoSteps.print
    "find and open notes" session = .ok twoStepsIntent := by
  exact parsed_of_read (by decide) (by decide) (by decide)

/-- What arrives of the answer: to open comes before to search. -/
def twoStepsReply : IntentResponse where
  status := "ok"
  message := "parsed intent 'open_file' into 2 action(s)"
  actionGraph := some
    { nodes := [⟨(Uuid.numbered 1).text, Uuid.nil.text, "open_files", "notes.txt",
          widen (narrow 0.9), widen (narrow 0.1)⟩,
        ⟨(Uuid.numbered 0).text, Uuid.nil.text, "search_files", "notes", widen (narrow 0.9),
          widen (narrow 0.1)⟩]
      deps := [] }

def twoStepsWorld : ExecWorld Unit :=
  { openNotesWorld with
    submit := { offline with
      intentReply := fun _ => .ok twoStepsReply
      nodeWalk := ⟨List.reverse, fun l => l.reverse_perm⟩ } }

def askingRuntime : Runtime := { Runtime.new with intentClient := some ⟨true⟩ }

def twoStepsRequest : Request :=
  sentRequest (Uuid.numbered 9) .nil "find and open notes" "ana"

theorem parse_twoSteps : (readAs twoSteps).parse twoStepsRequest.rawInput
    (buildSession (readAs twoSteps) twoStepsRequest) = .ok twoStepsIntent :=
  IntentEngine.parse_readAs rfl parsed_twoSteps

theorem distinctIds_twoSteps :
    ActionGraph.DistinctIds (readAs twoSteps).freshNodes twoStepsIntent :=
  IntentEngine.distinctIds_numbered (by decide)

theorem ordered_twoSteps : (ActionGraph.fromSchema Uuid.numbered twoStepsIntent).ordered .listed =
    [⟨Uuid.numbered 1, .nil, "open_files", "notes.txt", narrow 0.9, narrow 0.1⟩,
      ⟨Uuid.numbered 0, .nil, "search_files", "notes", narrow 0.9, narrow 0.1⟩] := by
  refine ActionGraph.ordered_eq_of_sorted
    (ActionGraph.not_dep_fromSchema distinctIds_twoSteps) ?_ ?_ (by decide)
  · refine (ActionGraph.ordered_fromSchema distinctIds_twoSteps _).trans ?_
    exact .swap _ _ []
  · refine List.pairwise_pair.mpr ?_
    rw [Prod.Lex.toLex_le_toLex]
    exact .inl (by decide)

theorem received_twoSteps :
    (handle false (readAs twoSteps) twoStepsRequest).received = twoStepsReply := by
  have hdeps : (ActionGraph.fromSchema Uuid.numbered twoStepsIntent).dependencies .listed = [] := by
    refine List.eq_nil_iff_forall_not_mem.mpr fun e he => ?_
    exact ActionGraph.not_dep_fromSchema distinctIds_twoSteps e.1 e.2
      (ActionGraph.mem_dependencies.mp he)
  have hgraph : graphToProto .listed (ActionGraph.fromSchema Uuid.numbered twoStepsIntent) =
      ⟨[⟨(Uuid.numbered 1).text, Uuid.nil.text, "open_files", "notes.txt", widen (narrow 0.9),
          widen (narrow 0.1)⟩,
        ⟨(Uuid.numbered 0).text, Uuid.nil.text, "search_files", "notes", widen (narrow 0.9),
          widen (narrow 0.1)⟩], []⟩ := by
    rw [graphToProto, ordered_twoSteps, hdeps]
    rfl
  have hmessage : "parsed intent '" ++ "open_file" ++ "' into " ++ toString 2 ++ " action(s)" =
      "parsed intent 'open_file' into 2 action(s)" := by
    decide
  have hgoal : twoStepsIntent.goal ∉ IntentEngine.nonExecutableNetworkGoalsV1 := by decide
  rw [IntentEngine.handle_ok false parse_twoSteps]
  show (IntentEngine.answer (readAs twoSteps) _ _ twoStepsIntent).received = _
  rw [IntentEngine.received_answer hgoal]
  show IntentResponse.mk _ ("parsed intent '" ++ "open_file" ++ "' into " ++
    toString (graphToProto .listed (ActionGraph.fromSchema Uuid.numbered
      twoStepsIntent)).nodes.length ++ " action(s)")
    (some (graphToProto .listed (ActionGraph.fromSchema Uuid.numbered twoStepsIntent))) = _
  rw [hgraph]
  show IntentResponse.mk _ ("parsed intent '" ++ "open_file" ++ "' into " ++ toString 2 ++
    " action(s)") _ = _
  rw [hmessage]
  rfl

theorem asks_twoSteps : Asks askingRuntime twoStepsWorld "find and open notes" "ana" false
    (readAs twoSteps) twoStepsIntent twoStepsRequest where
  sent := rfl
  client := ⟨⟨true⟩, rfl, rfl⟩
  reply := congrArg Except.ok received_twoSteps.symm
  parsed := parse_twoSteps
  ok := (IntentEngine.handle_parsed false parse_twoSteps).1.mpr (by decide)
  nodes := distinctIds_twoSteps
  tasks := by
    show ∀ i < 2, ∀ j < 2, minted offline i = minted offline j → i = j
    decide

/-- The pairs of the report's tasks. -/
def reportPairs (result : Except OrchestratorError ExecutionReport) : List (String × String) :=
  match result with
  | .ok report => report.tasks.map (·.pair)
  | .error _ => []

theorem run_twoSteps :
    (submitAndExecute askingRuntime twoStepsWorld "find and open notes" "ana" "").1.map
        reportPairs = some [("open_files", "notes.txt"), ("search_files", "notes")] ∧
      ((submitAndExecute askingRuntime twoStepsWorld "find and open notes" "ana"
        "").2.2.all fun step => decide step.Granted) = true := by
  decide

/-- To open is executed first. -/
theorem report_twoSteps : ∃ report,
    (submitAndExecute askingRuntime twoStepsWorld "find and open notes" "ana" "").1 =
      some (.ok report) ∧
    report.tasks.map (·.pair) = [("open_files", "notes.txt"), ("search_files", "notes")] := by
  obtain ⟨result, hresult, hpairs⟩ := Option.map_eq_some_iff.mp run_twoSteps.1
  cases result with
  | error e => cases hpairs
  | ok report => exact ⟨report, hresult, hpairs⟩

/-- Both tasks only read, so they are let through. -/
theorem grants_twoSteps : Grants
    (submitAndExecute askingRuntime twoStepsWorld "find and open notes" "ana" "").2.2 := by
  intro step hstep
  exact of_decide_eq_true (List.all_eq_true.mp run_twoSteps.2 step hstep)

theorem works_twoSteps : Works twoStepsWorld.round := fun _ _ => rfl

theorem candidates_executed_twoSteps : ∃ report,
    (submitAndExecute askingRuntime twoStepsWorld "find and open notes" "ana" "").1 =
      some (.ok report) ∧
    report.success = true ∧ (report.tasks.map (·.pair)).Perm twoStepsIntent.listed := by
  obtain ⟨report, hreport, hsuccess, -, hperm⟩ :=
    candidates_executed "" asks_twoSteps grants_twoSteps works_twoSteps (by decide)
  exact ⟨report, hreport, hsuccess, hperm⟩

/-- Nothing goes wrong, and what was listed second is executed first. -/
theorem not_in_order_twoSteps :
    Asks askingRuntime twoStepsWorld "find and open notes" "ana" false (readAs twoSteps)
      twoStepsIntent twoStepsRequest ∧
    2 ≤ twoStepsIntent.candidateActions.length ∧
    Grants (submitAndExecute askingRuntime twoStepsWorld "find and open notes" "ana" "").2.2 ∧
    Works twoStepsWorld.round ∧
    ∃ report, (submitAndExecute askingRuntime twoStepsWorld "find and open notes" "ana" "").1 =
        some (.ok report) ∧
      report.tasks.map (·.pair) ≠
        twoStepsIntent.candidateActions.map fun c => (c.action, c.target) := by
  obtain ⟨report, hreport, hpairs⟩ := report_twoSteps
  refine ⟨asks_twoSteps, le_refl 2, grants_twoSteps, works_twoSteps, report, hreport, ?_⟩
  rw [hpairs]
  decide

end System

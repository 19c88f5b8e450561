/-
# `Cognos.System.ApprovalPath` — from a dispatch to a human and back

The whole way of an approval: `dispatch_node` is told to ask, `blocking_gate` writes to
HAL's socket, HAL shows a dialog, somebody says yes, and the answer comes back.  With a
yes on the other side of every dialog that can be read, two things can still stop it, and
both are known before the first byte is sent (`Passable`): the name the agent goes by at
the gate, and the size of the request.

    blockingGate_fits   a request that fits is answered with HAL's response
    dispatched_iff      the dispatch goes through on an approved answer only
    obtainable_iff      an approval can be had exactly when the way is passable
-/
import Mathlib
import Cognos.Orchestrator.BlockingGate
import Cognos.Orchestrator.DispatchSafety
import Cognos.System.Dialog

namespace System

open Hal Orchestrator Ipc

variable {Time : Type} {K : Codecs Time} {hw : HalWorld Time} {s : SocketWorld}
  {action : SideEffect} {traceId : String} {rt : Runtime} {id : TaskId} {node : TaskNode}
  {client : CognosClient}

/-! ## The parties -/

/-- HAL behind its socket. -/
def halSocket (K : Codecs Time) (hw : HalWorld Time) (sent : List UInt8) : List UInt8 :=
  responseBytes K (handleConnection K hw sent)

/-- Somebody watches the dialogs and says yes to every one that can be read. -/
def SaysYes (K : Codecs Time) (hw : HalWorld Time) : Prop :=
  ∃ reply, hw.ui = .listening reply ∧ ∀ frame d, readDialog K frame = .ok (d, []) →
    ∃ notice, writeDialogResponse [] ⟨true, notice⟩ = .ok (reply frame)

/-- The gRPC gate wants an approval for the node. -/
def Held (rt : Runtime) (gw : GateWorld Time) (node : TaskNode) (traceId : String) : Prop :=
  ∃ client risk, rt.halGate = some client ∧
    gateAction client gw.freshTrace gw.halReply node.sideEffect traceId
      = .ok (.approvalRequired risk)

/-- Whenever the gate holds the node and somebody says yes in time, the node is dispatched. -/
def Obtainable (K : Codecs Time) (rt : Runtime) (id : TaskId) (traceId : String) : Prop :=
  ∀ node (gw : GateWorld Time) s hw, rt.graph.get id = some node →
    isSideEffecting node.capability = true → Held rt gw node traceId →
    gw.wait = waitOn K s → s.connect = .ok (halSocket K hw) → SaysYes K hw →
    ∃ note, (dispatchNode rt gw id traceId).result = .ok (.dispatched, note)

/-- HAL knows the agent, and the request fits a frame. -/
def Passable (node : TaskNode) (traceId : String) : Prop :=
  isKnownAgent (gateAgent node.sideEffect.sourceAgent) = true ∧
    requestSize node.sideEffect traceId ≤ maxUiFrameBytes

/-! ## The yes -/

theorem json_yes (notice : Option String) :
    ∃ fs, (UiDialogResponse.mk true notice).json = .obj fs ∧
      Json.Value.admitted K.inRange 127 (.obj fs) = some (.obj fs) ∧
      replyApproves (.obj fs) = true := by
  cases notice with
  | none => exact ⟨_, rfl, rfl, rfl⟩
  | some text => exact ⟨_, rfl, rfl, rfl⟩

/-- A yes that was written is read by HAL as a yes. -/
theorem readUiReply_yes {notice : Option String} {bytes : List UInt8}
    (h : writeDialogResponse [] ⟨true, notice⟩ = .ok bytes) :
    ∃ v, readUiReply K bytes = .ok (some v) ∧ replyApproves v = true := by
  obtain ⟨fs, hjson, hadm, hyes⟩ := json_yes (K := K) notice
  refine ⟨.obj fs, ?_, hyes⟩
  have hfits : (UiDialogResponse.mk true notice).json.toVec.length ≤ maxUiFrameBytes :=
    accepted_iff.mp ⟨bytes, h⟩
  rw [writeDialogResponse, writeFrame_ok hfits, List.nil_append] at h
  cases h
  have hread : Frame.read maxUiResponseSize _ = .ok (_, _) := Frame.read_send hfits (by decide) []
  rw [List.append_nil] at hread
  unfold readUiReply
  rw [hread]
  simp only [Json.fromSlice_toVec, Option.bind_some, hjson, hadm]

theorem answer_yes {req : GateRequest} (hyes : SaysYes K hw) (hasked : Asked hw.home req)
    (hsize : dialogSize hw.home req ≤ maxUiFrameBytes) : (answer K hw req).1 = true := by
  obtain ⟨reply, hui, hreply⟩ := hyes
  obtain ⟨d, hd, -⟩ := readDialog_fits (K := K) (w := hw) hasked hsize
  obtain ⟨notice, hnotice⟩ := hreply _ d hd
  obtain ⟨v, hv, happ⟩ := readUiReply_yes (K := K) hnotice
  unfold answer requestUiDecision
  unfold dialogOf at hv
  simp only [hui, hv, Except.map, Option.map_some, settle, userDecision, happ]

/-! ## HAL's side -/

/-- The dialog of a request is no longer than the request. -/
theorem dialogSize_le_requestSize (home : String) (fresh : Uuid) (action : SideEffect)
    (traceId : String) :
    dialogSize home (sideEffectToGateRequest fresh action traceId) ≤
      requestSize action traceId := by
  unfold dialogSize requestSize
  simp only [sideEffectToGateRequest_action, sideEffectToGateRequest_agent,
    sideEffectToGateRequest_target, sideEffectToGateRequest_isAiGenerated]
  split <;> split <;> split <;> split <;> omega

theorem received_request (fresh : Uuid) (hsize : requestSize action traceId ≤ maxUiFrameBytes) :
    Received K (Frame.send (sideEffectToGateRequest fresh action traceId).json.toVec)
      (sideEffectToGateRequest fresh action traceId) := by
  refine received_send K (admitted_parameters K.inRange fresh action traceId) ?_
  rw [size_request]
  exact hsize.trans (by decide)

/-- With somebody saying yes, HAL approves every request of a known agent that fits. -/
theorem approved_of_yes (fresh : Uuid) (hyes : SaysYes K hw)
    (hk : isKnownAgent (gateAgent action.sourceAgent) = true)
    (hsize : requestSize action traceId ≤ maxUiFrameBytes) :
    (responseTo K hw (sideEffectToGateRequest fresh action traceId)).approved = true := by
  have hadm : Admissible (sideEffectToGateRequest fresh action traceId) := by
    refine ⟨?_, ?_⟩
    · rw [sideEffectToGateRequest_agent]
      exact hk
    · rw [sideEffectToGateRequest_action]
      exact mapGateAction_ne_modify_hal action.op
  refine responseTo_approved.mpr ⟨hadm, ?_⟩
  cases ha : (computeHalLevelV0 hw.home (sideEffectToGateRequest fresh action traceId)).1.asks with
  | false => exact .inl rfl
  | true =>
      refine .inr (answer_yes hyes ⟨hadm, ha⟩ ?_)
      exact (dialogSize_le_requestSize hw.home fresh action traceId).trans hsize

theorem not_approved_of_unknown (fresh : Uuid)
    (hk : isKnownAgent (gateAgent action.sourceAgent) = false) :
    (responseTo K hw (sideEffectToGateRequest fresh action traceId)).approved = false := by
  rw [← Bool.not_eq_true, responseTo_approved]
  rintro ⟨⟨hknown, -⟩, -⟩
  rw [sideEffectToGateRequest_agent, hk] at hknown
  cases hknown

/-! ## The round trip -/

/-- A response HAL gives is small and reads back. -/
theorem responseTo_wire (K : Codecs Time) (hw : HalWorld Time) (req : GateRequest) :
    ((responseTo K hw req).json K).toVec.length ≤ maxUiFrameBytes ∧
      GateResponse.read K ((responseTo K hw req).json K) = some (responseTo K hw req) := by
  obtain ⟨r, hr, hscore⟩ : ∃ r ∈ Codecs.table, r.1 = (responseTo K hw req).halScore :=
    responseTo_score
  have hsmall : ∀ r ∈ Codecs.table, r.2.1.utf8ByteSize ≤ 4 ∧ r.1.isFinite = true := by
    decide
  have hfin : (responseTo K hw req).halScore.isFinite = true := hscore ▸ (hsmall r hr).2
  have htext : (K.f32 (responseTo K hw req).halScore).size ≤ 4 := by
    rw [Codecs.f32, if_pos hfin, Json.Value.size_num, ← hscore, K.printF32_table r hr]
    exact (hsmall r hr).1
  exact ⟨GateResponse.length_json htext, GateResponse.read_json K hfin⟩

/-- A request that fits is answered with HAL's response. -/
theorem blockingGate_fits (hsock : s.connect = .ok (halSocket K hw))
    (hsize : requestSize action traceId ≤ maxUiFrameBytes) :
    blockingGate K s action traceId
      = .ok (responseTo K hw (sideEffectToGateRequest s.freshId action traceId)) := by
  have hlen : (sideEffectToGateRequest s.freshId action traceId).json.toVec.length
      ≤ maxUiFrameBytes := by
    rw [Json.length_toVec, size_request]
    exact hsize
  obtain ⟨hsmall, hread⟩ := responseTo_wire K hw
    (sideEffectToGateRequest s.freshId action traceId)
  have hback := readFrame_send hsmall []
  rw [List.append_nil] at hback
  unfold blockingGate
  simp only [hsock, writeFrame_ok hlen, List.nil_append, halSocket,
    handleConnection_of_received (received_request s.freshId hsize),
    responseBytes_handleRequest, hback, Json.recordFromSlice_toVec, Option.bind_some, hread]

/-- A request that does not fit is never sent. -/
theorem blockingGate_overlong (hsock : s.connect = .ok (halSocket K hw))
    (hsize : maxUiFrameBytes < requestSize action traceId) :
    ∃ e, blockingGate K s action traceId = .error e := by
  have hno : ¬ Accepted (sideEffectToGateRequest s.freshId action traceId).json.toVec := by
    rw [accepted_iff, Json.length_toVec, size_request]
    exact Nat.not_le.mpr hsize
  unfold blockingGate
  simp only [hsock]
  cases hw' : writeFrame [] (sideEffectToGateRequest s.freshId action traceId).json.toVec with
  | error e => exact ⟨_, rfl⟩
  | ok sent => exact absurd ⟨sent, hw'⟩ hno

/-! ## The dispatch -/

/-- A held node is dispatched when the wait ends with an approval, and only then. -/
theorem dispatched_iff {gw : GateWorld Time} (hnode : rt.graph.get id = some node)
    (hse : isSideEffecting node.capability = true) (hheld : Held rt gw node traceId) :
    (∃ note, (dispatchNode rt gw id traceId).result = .ok (.dispatched, note)) ↔
      ∃ response, gw.wait node.sideEffect traceId = .answered response ∧
        response.approved = true := by
  obtain ⟨client, risk, hgate, hask⟩ := hheld
  have hse' : ¬¬ isSideEffecting node.sideEffect.capability = true := not_not.mpr hse
  unfold dispatchNode
  simp only [hnode, if_neg hse', hgate, hask, awaitApproval]
  cases gw.wait node.sideEffect traceId with
  | answered response =>
      cases hr : response.approved <;> simp [hr, refuse]
  | gateError e => simp [refuse]
  | taskFailed e => simp [refuse]
  | elapsed => simp [refuse]

/-! ## What stands in the way -/

theorem obtainable_of_passable (hnode : rt.graph.get id = some node)
    (h : Passable node traceId) : Obtainable K rt id traceId := by
  intro node' gw s hw hnode' hse hheld hwait hsock hyes
  obtain rfl : node = node' := Option.some.inj (hnode.symm.trans hnode')
  have happ : (responseTo K hw (sideEffectToGateRequest s.freshId node.sideEffect
      traceId)).approved = true := approved_of_yes s.freshId hyes h.1 h.2
  refine (dispatched_iff hnode hse hheld).mpr ⟨_, ?_, happ⟩
  rw [hwait, waitOn, blockingGate_fits hsock h.2]

/-- The yes of a watcher who does not look. -/
def yes : UiDialogResponse := ⟨true, none⟩

/-- HAL with such a watcher, at a clock that stands still. -/
def yesWorld (now : Time) : HalWorld Time :=
  ⟨"/root", false, .listening fun _ => Frame.send yes.json.toVec, none, fun _ => now⟩

/-- A socket with HAL behind it. -/
def socketTo (K : Codecs Time) (hw : HalWorld Time) : SocketWorld :=
  ⟨.nil, .ok (halSocket K hw), fun _ => ""⟩

/-- A gate that wants an approval for everything and waits on the socket. -/
def holding (K : Codecs Time) (s : SocketWorld) : GateWorld Time :=
  ⟨.nil, fun _ => .ok ⟨"approval_required", "", 0, [], none, ""⟩, waitOn K s, 120⟩

theorem holding_wait (K : Codecs Time) (s : SocketWorld) : (holding K s).wait = waitOn K s := by
  simp only [holding]

theorem saysYes_yesWorld (K : Codecs Time) (now : Time) : SaysYes K (yesWorld now) := by
  have hfits : yes.json.toVec.length ≤ maxUiFrameBytes := by
    rw [Json.length_toVec]
    decide
  refine ⟨fun _ => Frame.send yes.json.toVec, rfl, ?_⟩
  intro frame d _
  exact ⟨none, writeFrame_ok hfits []⟩

theorem held_holding (K : Codecs Time) (s : SocketWorld) (hgate : rt.halGate = some client)
    (hconn : client.connected = true) (node : TaskNode) (traceId : String) :
    Held rt (holding K s) node traceId := by
  refine ⟨client, 0, hgate, ?_⟩
  simp [gateAction, CognosClient.requestHalGate, hconn, holding, interpret, Except.mapError]

/-- An agent HAL does not know, or a request that does not fit, is never approved. -/
theorem not_obtainable (K : Codecs Time) (now : Time) (hnode : rt.graph.get id = some node)
    (hse : isSideEffecting node.capability = true) (hgate : rt.halGate = some client)
    (hconn : client.connected = true) (h : ¬ Passable node traceId) :
    ¬ Obtainable K rt id traceId := by
  intro hobt
  have hsock : (socketTo K (yesWorld now)).connect = .ok (halSocket K (yesWorld now)) := rfl
  have hwait := holding_wait K (socketTo K (yesWorld now))
  have hheld := held_holding K (socketTo K (yesWorld now)) hgate hconn node traceId
  obtain ⟨response, hresp, happ⟩ := (dispatched_iff hnode hse hheld).mp
    (hobt node _ _ _ hnode hse hheld hwait hsock (saysYes_yesWorld K now))
  rw [hwait, waitOn] at hresp
  by_cases hsize : requestSize node.sideEffect traceId ≤ maxUiFrameBytes
  · have hk : isKnownAgent (gateAgent node.sideEffect.sourceAgent) = false := by
      rw [← Bool.not_eq_true]
      exact fun hk => h ⟨hk, hsize⟩
    rw [blockingGate_fits hsock hsize] at hresp
    cases hresp
    rw [not_approved_of_unknown _ hk] at happ
    cases happ
  · obtain ⟨e, he⟩ := blockingGate_overlong hsock (Nat.not_le.mp hsize)
    rw [he] at hresp
    cases hresp

/-- With a gate attached, an approval for a side-effecting node of the graph can be had exactly
when HAL knows the agent and the request fits. -/
theorem obtainable_iff (K : Codecs Time) (now : Time) (hnode : rt.graph.get id = some node)
    (hse : isSideEffecting node.capability = true) (hgate : rt.halGate = some client)
    (hconn : client.connected = true) (traceId : String) :
    Obtainable K rt id traceId ↔ Passable node traceId := by
  constructor
  · intro h
    by_contra hno
    exact not_obtainable K now hnode hse hgate hconn hno h
  · exact obtainable_of_passable hnode

/-! ## A node of the file agent, and one of the coordinator -/

def gated : Runtime := { Runtime.new with halGate := some ⟨true⟩ }

/-- Deleting a file of the home directory, planned for the file agent. -/
def deleteNotes : TaskNode :=
  { id := ⟨Uuid.numbered 1⟩
    agent := ⟨"agent.file"⟩
    intent := intentValue ⟨"file.delete → /home/ana/notes", "file.write", "file.delete",
      "/home/ana/notes"⟩
    state := .ready }

def withDeleteNotes : Runtime := { gated with graph := (gated.graph.addTask .nil deleteNotes).1 }

theorem obtainable_iff_deleteNotes :
    Obtainable Codecs.sample withDeleteNotes ⟨Uuid.numbered 1⟩ "" ↔ Passable deleteNotes "" :=
  obtainable_iff Codecs.sample Codecs.midnight
    (rfl : withDeleteNotes.graph.get ⟨Uuid.numbered 1⟩ = some deleteNotes)
    (by decide) rfl rfl ""

/-- What a submission without an intent engine and without agents sees. -/
def alone : SubmitWorld :=
  { freshTrace := .nil
    intentReply := fun _ => .error "unreachable"
    freshIds := fun k => Uuid.numbered (k + 1)
    agentWalk := .listed AgentId
    nodeWalk := .listed TaskId
    clock := fun k => k }

def deleteOldNotes : Intent := Intent.new (Uuid.numbered 9) "ana" "delete old notes"

/-- The second task of the request has a side effect and falls to an agent HAL does not know. -/
theorem submitted_deleteOldNotes :
    (submit gated alone deleteOldNotes).2.halGate.map (·.connected) = some true ∧
    ((submit gated alone deleteOldNotes).2.graph.get ⟨Uuid.numbered 2⟩).map (fun n =>
      (isSideEffecting n.capability, isKnownAgent (gateAgent n.sideEffect.sourceAgent)))
      = some (true, false) := by
  decide

theorem not_obtainable_of_unknown {rt : Runtime} {id : TaskId}
    (hgate : rt.halGate.map (·.connected) = some true)
    (hnode : (rt.graph.get id).map (fun n =>
      (isSideEffecting n.capability, isKnownAgent (gateAgent n.sideEffect.sourceAgent)))
      = some (true, false)) :
    ¬ Obtainable Codecs.sample rt id "" := by
  obtain ⟨client, hgate, hconn⟩ := Option.map_eq_some_iff.mp hgate
  obtain ⟨node, hnode, heq⟩ := Option.map_eq_some_iff.mp hnode
  obtain ⟨hse, hunknown⟩ := Prod.mk.inj heq
  have hno : ¬ Passable node "" := by
    rintro ⟨hk, -⟩
    rw [hunknown] at hk
    cases hk
  exact not_obtainable Codecs.sample Codecs.midnight hnode hse hgate hconn hno

theorem not_obtainable_coordinator :
    ¬ ∀ {Time : Type} (K : Codecs Time) (rt : Runtime) (w : SubmitWorld) (intent : Intent) id
      traceId, Obtainable K (submit rt w intent).2 id traceId := by
  intro h
  exact not_obtainable_of_unknown submitted_deleteOldNotes.1 submitted_deleteOldNotes.2
    (h Codecs.sample gated alone deleteOldNotes ⟨Uuid.numbered 2⟩ "")

end System

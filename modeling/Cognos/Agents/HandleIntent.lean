/-
# `Cognos.Agents.HandleIntent` — what becomes of the agents' replies

`handle_intent`: the memory agent, the scheduler and the agent of the goal are called at once;
what the first and the last come back with, a dictionary, nothing or an exception, is made into
one `ActionSet`.  The actions of a reply are used as objects with attributes, which only a
`ProposedAction` is; the fields of one are taken to be of the types they are declared with.

    gather_eq           the replies do not depend on what was called before
    proposes_iff        which actions a reply proposes
    readPrimary_isOk    when a reply can be read
    answers_iff         when an intent is answered
-/
import Cognos.Agents.Conflicts
import Cognos.Lib.PyNumber

namespace Agents

open Py (Value Fields Exc Number get iterate typeError attributeError)

/-! ## Replies -/

/-- What a task comes to: what the call returned, or an exception. -/
abbrev Outcome := Except Exc (Option Fields)

/-- What is gathered; the scheduler's task is not waited for. -/
structure Gathered where
  memory : Outcome
  primary : Outcome

/-- What the calls of one intent meet. -/
structure Meetings where
  memory : Meeting
  scheduler : Meeting
  first : Meeting
  second : Meeting

/-- The value may be looked up in a set. -/
def hashable : Value → Bool
  | .list _ => false
  | .dict _ => false
  | .record _ => false
  | _ => true

/-- The goal, as far as the sets of goals tell. -/
def goalText : Value → String
  | .str s => s
  | _ => ""

/-- The tasks, one after the other.  A goal that cannot be looked up ends the primary one. -/
def gather (s : Coordinator) (met : Meetings) (schema : Fields) : Gathered :=
  let goal := get schema "goal" (.str "")
  let (memory, s) := s.callAgent met.memory "memory" "MEMORY_QUERY" schema true
  let (_, s) := s.callAgent met.scheduler "scheduler" "RESOURCE_HINT" [("goal", goal)] false
  { memory := .ok memory
    primary :=
      if hashable goal then .ok (s.routePrimary met.first met.second (goalText goal) schema).1
      else .error typeError }

/-- What a critical call returns. -/
def reply (m : Meeting) (agent : String) : Option Fields :=
  match Coordinator.localRoute agent m with
  | some viaPlan =>
      match m.localResult with
      | .ok v => some (Coordinator.localReply viaPlan v)
      | .error _ => none
  | none =>
      match m.ipcResult with
      | .ok fields => some fields
      | .error _ => none

theorem reply_callAgent (s : Coordinator) (m : Meeting) (agent msgType : String)
    (payload : Fields) : (s.callAgent m agent msgType payload true).1 = reply m agent := by
  unfold Coordinator.callAgent reply
  rw [Bool.not_true, Bool.and_false, if_neg Bool.false_ne_true]
  cases Coordinator.localRoute agent m with
  | some viaPlan => cases m.localResult <;> rfl
  | none =>
      show (Coordinator.callIpc _ m agent).1 = _
      unfold Coordinator.callIpc
      cases m.ipcResult with
      | ok fields => rfl
      | error e => cases e <;> rfl

/-- The routing answers alike whatever was called before. -/
theorem reply_routePrimary (s s' : Coordinator) (first second : Meeting) (goal : String)
    (schema : Fields) :
    (s.routePrimary first second goal schema).1 = (s'.routePrimary first second goal schema).1 := by
  unfold Coordinator.routePrimary
  split_ifs
  · rw [reply_callAgent, reply_callAgent]
  · rw [reply_callAgent, reply_callAgent]
  · rw [reply_callAgent, reply_callAgent]
  · simp only [reply_callAgent, apply_ite Prod.fst]
  · rw [reply_callAgent, reply_callAgent]
  · rw [reply_callAgent, reply_callAgent]

/-- So the tasks may run in any order. -/
theorem gather_eq (s s' : Coordinator) (met : Meetings) (schema : Fields) :
    gather s met schema = gather s' met schema := by
  unfold gather
  simp only [reply_callAgent]
  rw [reply_routePrimary]

/-! ## The actions -/

/-- The value is a `ProposedAction` object. -/
def ProposedAction.ofValue : Value → Option ProposedAction
  | .record fields =>
      match fields.lookup "action", fields.lookup "target", fields.lookup "agent",
        fields.lookup "confidence", fields.lookup "reversible", fields.lookup "hal_pre_score",
        fields.lookup "parameters", fields.lookup "conflict_flag",
        fields.lookup "conflict_note" with
      | some (.str action), some (.str target), some (.str agent), some (.float confidence),
        some (.bool reversible), some (.float halPreScore), some (.dict parameters),
        some (.bool conflictFlag), some (.str conflictNote) =>
          some ⟨action, target, agent, confidence, reversible, halPreScore, parameters,
            conflictFlag, conflictNote⟩
      | _, _, _, _, _, _, _, _, _ => none
  | _ => none

/-- No action. -/
def ProposedAction.blank : ProposedAction := ⟨"", "", "", 0, false, 0, [], false, ""⟩

/-- The actions as objects, in their order. -/
def heapOf (actions : List ProposedAction) : Heap := fun r => actions[r]?.getD .blank

/-- The actions after conflict resolution. -/
def afterConflicts (actions : List ProposedAction) : List ProposedAction :=
  let s := resolveConflicts (heapOf actions) (List.range actions.length)
  s.resolved.map s.heap

/-- `_resolve_conflicts` of a list of anything: what is no `ProposedAction` has no `target`. -/
def resolveValues (proposed : List Value) : Except Exc (List ProposedAction) :=
  match proposed.mapM ProposedAction.ofValue with
  | some actions => .ok (afterConflicts actions)
  | none => .error attributeError

/-! ## Assembly -/

structure ActionSet where
  actions : List ProposedAction
  context : Fields
  confidence : Number
  requiresDisambiguation : Value
  assembledBy : String
  intentId : Value

/-- Whether the audit log can be opened, and a fresh identifier. -/
structure IntentWorld where
  logOpens : Bool
  freshId : String

/-- `min(m, reply.get("confidence", 1.0))`. -/
def lower (m : Number) (reply : Fields) : Except Exc Number :=
  match Number.ofValue (get reply "confidence" (.float 1.0)) with
  | some n => .ok (m.min n)
  | none => .error typeError

/-- A dataclass is made a dictionary. -/
def plain : Value → Value
  | .record fields => Value.asdict (.record fields)
  | v => v

/-- The hits of the memory agent. -/
def memoryData (reply : Fields) : Value :=
  match get reply "hits" (get reply "data" (.list [])) with
  | .list vs => .list (vs.map plain)
  | v => v

def readMemory : Outcome → Except Exc (Fields × Number)
  | .ok (some reply) => do
      let m ← lower (.float 1) reply
      return ([("memory", memoryData reply)], m)
  | _ => .ok ([], .float 1)

def readPrimary (m : Number) : Outcome → Except Exc (List Value × Number)
  | .ok (some reply) => do
      let proposed ← iterate (get reply "actions" (.list []))
      let m ← lower m reply
      return (proposed, m)
  | _ => .ok ([], m)

/-- An exception pulls the confidence down. -/
def pullDown (limit : Number) (m : Number) : Outcome → Number
  | .error _ => m.min limit
  | .ok _ => m

/-- What of the schema and the set goes into the audit log as it is. -/
def auditValues (schema : Fields) (set : ActionSet) : List Value :=
  [set.intentId, get schema "goal" .none, get schema "hal_pre_score" (.float 0.0)]

/-- `_audit`: only an `OSError` is caught. -/
def audit (w : IntentWorld) (schema : Fields) (set : ActionSet) : Except Exc Unit :=
  if w.logOpens && !(auditValues schema set).all Value.jsonable then .error typeError else .ok ()

/-- `handle_intent`, once the replies are gathered. -/
def handleIntent (w : IntentWorld) (schema : Fields) (g : Gathered) : Except Exc ActionSet := do
  let (context, m) ← readMemory g.memory
  let (proposed, m) ← readPrimary m g.primary
  let actions ← resolveValues proposed
  let m := pullDown (.float 0.5) m g.memory
  let m := pullDown (.float 0.3) m g.primary
  let set : ActionSet :=
    { actions := actions
      context := context
      confidence := m.clampUnit
      requiresDisambiguation := get schema "disambiguation_required" (.bool false)
      assembledBy := "coordinator"
      intentId := get schema "intent_id" (.str w.freshId) }
  audit w schema set
  return set

/-! ## What is answered -/

/-- The actions that a reply proposes. -/
def Proposes : Outcome → List ProposedAction → Prop
  | .ok (some reply), actions =>
      ∃ vs, iterate (get reply "actions" (.list [])) = .ok vs ∧
        vs.mapM ProposedAction.ofValue = some actions
  | _, actions => actions = []

/-- The reply's confidence, if it has one, is a number. -/
def Confident : Outcome → Prop
  | .ok (some reply) =>
      ∀ v, reply.lookup "confidence" = some v → (Number.ofValue v).isSome = true
  | _ => True

/-- What is logged of the schema as it is can be written as JSON. -/
def Loggable (schema : Fields) : Prop :=
  ∀ key ∈ ["intent_id", "goal", "hal_pre_score"], ∀ v, schema.lookup key = some v →
    v.jsonable = true

/-- The intent is answered: nothing is raised, and the set has the proposed actions after
conflict resolution and a confidence from zero to one. -/
def Answers (w : IntentWorld) (schema : Fields) (g : Gathered) : Prop :=
  ∃ set actions, handleIntent w schema g = .ok set ∧ Proposes g.primary actions ∧
    set.actions = afterConflicts actions ∧ set.confidence.Unit

theorem bind_eq_ok {α β : Type} {x : Except Exc α} {f : α → Except Exc β} {b : β} :
    (x >>= f) = .ok b ↔ ∃ a, x = .ok a ∧ f a = .ok b := by
  cases x with
  | error e => exact iff_of_false (fun h => by cases h) fun ⟨a, h, _⟩ => by cases h
  | ok a =>
      constructor
      · intro h
        exact ⟨a, rfl, h⟩
      · rintro ⟨a', ha, h⟩
        cases ha
        exact h

theorem get_forall {P : Value → Prop} {fields : Fields} {key : String} (default : Value)
    (hdefault : P default) :
    P (get fields key default) ↔ ∀ v, fields.lookup key = some v → P v := by
  unfold Py.get
  cases hlookup : fields.lookup key with
  | none => exact iff_of_true hdefault fun v hv => by cases hv
  | some v =>
      constructor
      · rintro h v' hv'
        cases hv'
        exact h
      · intro h
        exact h v rfl

theorem lower_isOk {m : Number} {reply : Fields} :
    (∃ n, lower m reply = .ok n) ↔
      ∀ v, reply.lookup "confidence" = some v → (Number.ofValue v).isSome = true := by
  rw [← get_forall (P := fun v => (Number.ofValue v).isSome = true) (.float 1.0) rfl]
  unfold lower
  cases Number.ofValue (get reply "confidence" (.float 1.0)) with
  | none => exact iff_of_false (fun ⟨n, h⟩ => by cases h) Bool.false_ne_true
  | some n => exact iff_of_true ⟨_, rfl⟩ rfl

theorem readMemory_isOk {o : Outcome} : (∃ x, readMemory o = .ok x) ↔ Confident o := by
  match o with
  | .error e => exact iff_of_true ⟨_, rfl⟩ trivial
  | .ok none => exact iff_of_true ⟨_, rfl⟩ trivial
  | .ok (some reply) =>
      refine Iff.trans ?_ (lower_isOk (m := .float 1))
      constructor
      · rintro ⟨x, h⟩
        obtain ⟨n, hn, -⟩ := bind_eq_ok.mp h
        exact ⟨n, hn⟩
      · rintro ⟨n, hn⟩
        exact ⟨_, bind_eq_ok.mpr ⟨n, hn, rfl⟩⟩

/-- What is read of the primary agent's reply is what it proposes. -/
theorem proposes_iff {m m' : Number} {o : Outcome} {proposed : List Value}
    (h : readPrimary m o = .ok (proposed, m')) {actions : List ProposedAction} :
    Proposes o actions ↔ proposed.mapM ProposedAction.ofValue = some actions := by
  match o with
  | .error e =>
      obtain ⟨rfl, -⟩ := Prod.mk.inj (Except.ok.inj h)
      exact eq_comm.trans (Option.some_inj (a := [])).symm
  | .ok none =>
      obtain ⟨rfl, -⟩ := Prod.mk.inj (Except.ok.inj h)
      exact eq_comm.trans (Option.some_inj (a := [])).symm
  | .ok (some reply) =>
      obtain ⟨vs, hvs, h⟩ := bind_eq_ok.mp h
      obtain ⟨n, -, h⟩ := bind_eq_ok.mp h
      obtain ⟨rfl, -⟩ := Prod.mk.inj (Except.ok.inj h)
      constructor
      · rintro ⟨vs', hvs', hactions⟩
        rw [hvs] at hvs'
        rw [Except.ok.inj hvs']
        exact hactions
      · intro hactions
        exact ⟨vs, hvs, hactions⟩

theorem readPrimary_confident {m : Number} {o : Outcome} {x : List Value × Number}
    (h : readPrimary m o = .ok x) : Confident o := by
  match o with
  | .error e => trivial
  | .ok none => trivial
  | .ok (some reply) =>
      obtain ⟨vs, -, h⟩ := bind_eq_ok.mp h
      obtain ⟨n, hn, -⟩ := bind_eq_ok.mp h
      exact lower_isOk.mp ⟨n, hn⟩

theorem readPrimary_isOk {m : Number} {o : Outcome} (hconfident : Confident o)
    {actions : List ProposedAction} (hproposes : Proposes o actions) :
    ∃ x, readPrimary m o = .ok x := by
  match o with
  | .error e => exact ⟨_, rfl⟩
  | .ok none => exact ⟨_, rfl⟩
  | .ok (some reply) =>
      obtain ⟨vs, hvs, -⟩ := hproposes
      obtain ⟨n, hn⟩ := (lower_isOk (m := m)).mpr hconfident
      exact ⟨_, bind_eq_ok.mpr ⟨vs, hvs, bind_eq_ok.mpr ⟨n, hn, rfl⟩⟩⟩

theorem resolveValues_eq_ok {proposed : List Value} {resolved : List ProposedAction} :
    resolveValues proposed = .ok resolved ↔
      ∃ actions, proposed.mapM ProposedAction.ofValue = some actions ∧
        afterConflicts actions = resolved := by
  unfold resolveValues
  cases proposed.mapM ProposedAction.ofValue with
  | none => exact iff_of_false (fun h => by cases h) fun ⟨_, h, _⟩ => by cases h
  | some actions =>
      constructor
      · intro h
        exact ⟨actions, rfl, Except.ok.inj h⟩
      · rintro ⟨actions', hactions, rfl⟩
        rw [Option.some.inj hactions]

theorem audit_eq_ok {w : IntentWorld} {schema : Fields} {set : ActionSet}
    (hid : set.intentId = get schema "intent_id" (.str w.freshId)) :
    audit w schema set = .ok () ↔ (w.logOpens = true → Loggable schema) := by
  have hloggable : (auditValues schema set).all Value.jsonable = true ↔ Loggable schema := by
    simp only [auditValues, hid, List.all_cons, List.all_nil, Bool.and_true, Bool.and_eq_true,
      Loggable, List.forall_mem_cons, List.not_mem_nil, false_implies, implies_true, and_true]
    rw [get_forall (P := fun v => v.jsonable = true) _ rfl,
      get_forall (P := fun v => v.jsonable = true) _ rfl,
      get_forall (P := fun v => v.jsonable = true) _ rfl]
  rw [← hloggable]
  unfold audit
  cases w.logOpens <;> cases (auditValues schema set).all Value.jsonable <;> simp

/-- The intent is answered exactly when the agents' confidences are numbers, the primary agent
proposes objects, and what is logged of the schema can be written. -/
theorem answers_iff (w : IntentWorld) (schema : Fields) (g : Gathered) :
    Answers w schema g ↔
      Confident g.memory ∧ Confident g.primary ∧ (∃ actions, Proposes g.primary actions) ∧
        (w.logOpens = true → Loggable schema) := by
  constructor
  · rintro ⟨set, actions, h, hproposes, -, -⟩
    obtain ⟨⟨context, m⟩, hmemory, h⟩ := bind_eq_ok.mp h
    obtain ⟨⟨proposed, m'⟩, hprimary, h⟩ := bind_eq_ok.mp h
    obtain ⟨resolved, -, h⟩ := bind_eq_ok.mp h
    obtain ⟨⟨⟩, haudit, -⟩ := bind_eq_ok.mp h
    exact ⟨readMemory_isOk.mp ⟨_, hmemory⟩, readPrimary_confident hprimary, ⟨actions, hproposes⟩,
      (audit_eq_ok rfl).mp haudit⟩
  · rintro ⟨hmemory, hprimary, ⟨actions, hproposes⟩, hloggable⟩
    obtain ⟨⟨context, m⟩, hm⟩ := readMemory_isOk.mpr hmemory
    obtain ⟨⟨proposed, m'⟩, hp⟩ := readPrimary_isOk (m := m) hprimary hproposes
    have hactions := (proposes_iff hp).mp hproposes
    refine ⟨_, actions, bind_eq_ok.mpr ⟨_, hm, bind_eq_ok.mpr ⟨_, hp, bind_eq_ok.mpr
      ⟨_, resolveValues_eq_ok.mpr ⟨actions, hactions, rfl⟩,
        bind_eq_ok.mpr ⟨(), (audit_eq_ok rfl).mpr hloggable, rfl⟩⟩⟩⟩, hproposes, rfl, ?_⟩
    exact Number.unit_clampUnit _

/-! ## A plan with a step -/

/-- The local planner's plan to open a file, as far as it is read. -/
def openPlan : Value :=
  .record [("plan_id", .str "p1"), ("goal", .str "open notes"),
    ("steps", .list [.record [("step_id", .str "s1"), ("action", .str "file.open"),
      ("confidence", .float 0.9)]]),
    ("confidence", .float 0.9)]

/-- The local security agent's check, as far as it is read. -/
def checkReply : Value :=
  .dict [("approved", .bool true), ("confidence", .float 0.9),
    ("actions", .list [.dict [("action", .str "security.check_complete"),
      ("target", .str "agent.file"), ("agent", .str "security"), ("confidence", .float 0.9)]])]

/-- Only the agent of the goal answers. -/
def onlyPrimary (found : LocalAgent) (result : Value) : Meetings where
  memory := Coordinator.remote (.error .timeout)
  scheduler := Coordinator.remote (.error .timeout)
  first := ⟨some found, .ok result, .error .timeout⟩
  second := Coordinator.remote (.error .timeout)

/-- Both the planner's and the security agent's actions are dictionaries. -/
theorem not_answers_plan :
    ¬ Answers ⟨true, "id"⟩ [("goal", .str "open notes")]
        (gather .new (onlyPrimary ⟨true, false⟩ openPlan) [("goal", .str "open notes")]) ∧
      ¬ Answers ⟨true, "id"⟩ [("goal", .str "audit_app")]
        (gather .new (onlyPrimary ⟨false, true⟩ checkReply) [("goal", .str "audit_app")]) := by
  have hplan : handleIntent ⟨true, "id"⟩ [("goal", .str "open notes")]
      (gather .new (onlyPrimary ⟨true, false⟩ openPlan) [("goal", .str "open notes")]) =
      .error attributeError := rfl
  have hcheck : handleIntent ⟨true, "id"⟩ [("goal", .str "audit_app")]
      (gather .new (onlyPrimary ⟨false, true⟩ checkReply) [("goal", .str "audit_app")]) =
      .error attributeError := rfl
  constructor
  · rintro ⟨set, actions, h, -⟩
    rw [hplan] at h
    cases h
  · rintro ⟨set, actions, h, -⟩
    rw [hcheck] at h
    cases h

end Agents

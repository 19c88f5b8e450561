/-
# `Cognos.Hal.MetaGovernance` — changes to the governance itself

`meta_governance.rs`: a policy change is proposed, ratified with a human approval, applied when
its delay has elapsed, and may be reverted.  Times are nanoseconds; ids are minted outside.

    Moves             Pending → Ratified → Applied → Reverted, and no other way
    moves_step        each call moves each proposal along it, or not at all
    Waiting           the history behind what is ratified: a ratification a day before it is due
    applied_waits     so what is applied has waited, if no token is older than its use
    applied_early     a token that is older is taken, and the change may be applied too early
-/
import Mathlib
import Cognos.Lib.Json.Value
import Cognos.Lib.Run
import Cognos.Lib.Uuid

namespace Hal

/-! ## Types -/

/-- A time in nanoseconds since the epoch. -/
abbrev Nanos := Int

/-- `Duration::hours(24)`, the mandatory delay between human approval and effect. -/
def approvalDelay : Nanos := 24 * 60 * 60 * 10 ^ 9

/-- `DateTime::<Utc>::MAX_UTC`: adding beyond it panics. -/
def maxUtc : Nanos := 8210266876799999999999

/-- How times are written, with `{:?}` and in RFC 3339. -/
structure Dates where
  debug : Nanos → String
  rfc3339 : Nanos → String

structure PolicyChange where
  description : String
  payload : Json.Value
  proposer : String
  proposedAt : Nanos

/-- The policy governing how policy changes themselves are made. -/
structure PolicyChangePolicy where
  requireHumanApproval : Bool
  approvalDelay : Nanos
  requireReversibility : Bool
  requireAuditEntry : Bool

def PolicyChangePolicy.default : PolicyChangePolicy := ⟨true, Hal.approvalDelay, true, true⟩

/-- A human-approval token; its signature is not verified. -/
structure HumanApproval where
  approverId : String
  approvedAt : Nanos
  justification : Option String
  signature : Option String

inductive ProposalState
  | pending
  | ratified (ratifiedAt effectiveAt : Nanos)
  | applied (appliedAt : Nanos)
  | reverted (revertedAt : Nanos)
  | withdrawn
  deriving DecidableEq

def ProposalState.debug (D : Dates) : ProposalState → String
  | .pending => "Pending"
  | .ratified r e =>
      "Ratified \x7b ratified_at: " ++ D.debug r ++ ", effective_at: " ++ D.debug e ++ " \x7d"
  | .applied t => "Applied \x7b applied_at: " ++ D.debug t ++ " \x7d"
  | .reverted t => "Reverted \x7b reverted_at: " ++ D.debug t ++ " \x7d"
  | .withdrawn => "Withdrawn"

structure ProposalRecord where
  id : Uuid
  change : PolicyChange
  state : ProposalState
  approval : Option HumanApproval
  auditEntry : Option String

inductive MetaError
  | notFound (id : Uuid)
  | notPending (id : Uuid) (state : String)
  | notRatified (id : Uuid)
  | notApplied (id : Uuid) (state : String)

def MetaError.text : MetaError → String
  | .notFound id => "proposal not found: " ++ id.text
  | .notPending id state => "proposal " ++ id.text ++ " not pending (state: " ++ state ++ ")"
  | .notRatified id => "proposal " ++ id.text ++ " not ratified"
  | .notApplied id state => "proposal " ++ id.text ++ " not applied (state: " ++ state ++ ")"

structure MetaGovernance where
  changePolicy : PolicyChangePolicy
  history : AList fun _ : Uuid => ProposalRecord

namespace MetaGovernance

/-! ## Operations -/

def new : MetaGovernance := ⟨.default, ∅⟩

/-- The state of a proposal. -/
def state (m : MetaGovernance) (id : Uuid) : Option ProposalState :=
  (m.history.lookup id).map (·.state)

def put (m : MetaGovernance) (record : ProposalRecord) (id : Uuid) : MetaGovernance :=
  { m with history := m.history.insert id record }

def proposeChange (m : MetaGovernance) (id : Uuid) (proposal : PolicyChange) :
    Uuid × MetaGovernance :=
  (id, m.put ⟨id, proposal, .pending, none, none⟩ id)

/-- Records the approval and schedules the change; `none` is the panic of a sum of times that
overflows, before anything is written. -/
def ratify (D : Dates) (m : MetaGovernance) (id : Uuid) (approval : HumanApproval) :
    Option (Except MetaError Unit) × MetaGovernance :=
  match m.history.lookup id with
  | none => (some (.error (.notFound id)), m)
  | some record =>
      if record.state ≠ .pending then
        (some (.error (.notPending id (record.state.debug D))), m)
      else
        let ratifiedAt := approval.approvedAt
        let effectiveAt := ratifiedAt + m.changePolicy.approvalDelay
        if maxUtc < effectiveAt then (none, m)
        else
          (some (.ok ()), m.put { record with
            approval := some approval
            state := .ratified ratifiedAt effectiveAt } id)

/-- Applies a ratified proposal if its delay has elapsed, and says whether it has. -/
def applyIfReady (D : Dates) (m : MetaGovernance) (id : Uuid) (now : Nanos) :
    Except MetaError Bool × MetaGovernance :=
  match m.history.lookup id with
  | none => (.error (.notFound id), m)
  | some record =>
      match record.state with
      | .ratified _ effectiveAt =>
          if now < effectiveAt then (.ok false, m)
          else
            (.ok true, m.put { record with
              state := .applied now
              auditEntry :=
                some ("applied proposal " ++ id.text ++ " at " ++ D.rfc3339 now) } id)
      | _ => (.error (.notRatified id), m)

/-- Reverts an applied proposal; `now` is what `Utc::now()` says. -/
def revert (D : Dates) (m : MetaGovernance) (id : Uuid) (now : Nanos) :
    Except MetaError Unit × MetaGovernance :=
  match m.history.lookup id with
  | none => (.error (.notFound id), m)
  | some record =>
      match record.state with
      | .applied _ => (.ok (), m.put { record with state := .reverted now } id)
      | s => (.error (.notApplied id (s.debug D)), m)

/-! ## Calls -/

inductive MetaCall
  | propose (id : Uuid) (change : PolicyChange)
  | ratify (id : Uuid) (approval : HumanApproval)
  | applyIfReady (id : Uuid)
  | revert (id : Uuid)

/-- A call and the time at which it is made, which is the `now` it is made with. -/
structure TimedCall where
  time : Nanos
  call : MetaCall

variable (D : Dates)

/-- The state behind a call. -/
def step (m : MetaGovernance) (c : TimedCall) : MetaGovernance :=
  match c.call with
  | .propose id change => (m.proposeChange id change).2
  | .ratify id approval => (m.ratify D id approval).2
  | .applyIfReady id => (m.applyIfReady D id c.time).2
  | .revert id => (m.revert D id c.time).2

/-- The id `Uuid::new_v4()` mints for a proposal is in no other use. -/
def Fresh (m : MetaGovernance) (c : TimedCall) : Prop :=
  ∀ id change, c.call = .propose id change → m.state id = none

/-- What a call makes of the state of a proposal. -/
inductive Moves (c : TimedCall) (id : Uuid) : Option ProposalState → Option ProposalState → Prop
  | stays (s : Option ProposalState) : Moves c id s s
  | proposed (change : PolicyChange) (h : c.call = .propose id change) :
      Moves c id none (some .pending)
  | ratified (approval : HumanApproval) (h : c.call = .ratify id approval) :
      Moves c id (some .pending)
        (some (.ratified approval.approvedAt (approval.approvedAt + approvalDelay)))
  | applied (r e : Nanos) (h : c.call = .applyIfReady id) (hready : e ≤ c.time) :
      Moves c id (some (.ratified r e)) (some (.applied c.time))
  | reverted (t : Nanos) (h : c.call = .revert id) :
      Moves c id (some (.applied t)) (some (.reverted c.time))

variable {m : MetaGovernance}

theorem state_put (record : ProposalRecord) (id id' : Uuid) :
    (m.put record id).state id' = if id' = id then some record.state else m.state id' := by
  rw [state, put]
  rcases eq_or_ne id' id with rfl | hne
  · rw [AList.lookup_insert, if_pos rfl]
    rfl
  · rw [AList.lookup_insert_ne hne, if_neg hne]
    rfl

/-- A call that writes one proposal moves that one. -/
theorem Moves.put {c : TimedCall} {record : ProposalRecord} {id : Uuid}
    (h : Moves c id (m.state id) (some record.state)) (id' : Uuid) :
    Moves c id' (m.state id') ((m.put record id).state id') := by
  rw [state_put]
  split_ifs with hid
  · exact hid ▸ h
  · exact .stays _

/-- Every call moves each proposal along its way, or leaves it. -/
theorem moves_step (hpolicy : m.changePolicy = .default) {c : TimedCall} (hfresh : Fresh m c)
    (id : Uuid) : Moves c id (m.state id) ((step D m c).state id) := by
  obtain ⟨time, call⟩ := c
  cases call with
  | propose id' change =>
      refine Moves.put ?_ id
      rw [hfresh id' change rfl]
      exact .proposed change rfl
  | ratify id' approval =>
      simp only [step, ratify]
      split
      · exact .stays _
      · next record hrecord =>
          have hstate : m.state id' = some record.state := by rw [state, hrecord]; rfl
          split_ifs with hpending hmax
          · exact .stays _
          · exact .stays _
          · refine Moves.put ?_ id
            rw [hstate, not_not.mp hpending, hpolicy]
            exact .ratified approval rfl
  | applyIfReady id' =>
      simp only [step, applyIfReady]
      split
      · exact .stays _
      · next record hrecord =>
          have hstate : m.state id' = some record.state := by rw [state, hrecord]; rfl
          split
          · next r e hratified =>
              split_ifs with hearly
              · exact .stays _
              · refine Moves.put ?_ id
                rw [hstate, hratified]
                exact .applied r e rfl (not_lt.mp hearly)
          · exact .stays _
  | revert id' =>
      simp only [step, revert]
      split
      · exact .stays _
      · next record hrecord =>
          have hstate : m.state id' = some record.state := by rw [state, hrecord]; rfl
          split
          · next t happlied =>
              refine Moves.put ?_ id
              rw [hstate, happlied]
              exact .reverted t rfl
          · exact .stays _

theorem changePolicy_step (m : MetaGovernance) (c : TimedCall) :
    (step D m c).changePolicy = m.changePolicy := by
  obtain ⟨time, call⟩ := c
  cases call with
  | propose id change => rfl
  | ratify id approval =>
      simp only [step, ratify]
      split
      · rfl
      · split_ifs <;> rfl
  | applyIfReady id =>
      simp only [step, applyIfReady]
      split
      · rfl
      · split
        · split_ifs <;> rfl
        · rfl
  | revert id =>
      simp only [step, revert]
      split
      · rfl
      · split <;> rfl

/-! ## Runs -/

/-- A token that takes effect is no older than its use: the approval it carries was not granted
before the call that ratifies with it. -/
def Truthful (m : MetaGovernance) (c : TimedCall) : Prop :=
  ∀ id approval, c.call = .ratify id approval → m.state id = some .pending →
    c.time ≤ approval.approvedAt

/-- What is ratified was ratified by a call, a day before it is due. -/
def Waiting (past : List TimedCall) (m : MetaGovernance) : Prop :=
  ∀ id r e, m.state id = some (.ratified r e) →
    ∃ c ∈ past, ∃ approval, c.call = .ratify id approval ∧ c.time + approvalDelay ≤ e

theorem Waiting.step {past : List TimedCall} (h : Waiting past m)
    (hpolicy : m.changePolicy = .default) {c : TimedCall} (hfresh : Fresh m c)
    (htruthful : Truthful m c) : Waiting (past ++ [c]) (step D m c) := by
  intro id r e hratified
  have hmoves := moves_step D hpolicy hfresh id
  rw [hratified] at hmoves
  generalize hbefore : m.state id = before at hmoves
  cases hmoves with
  | stays =>
      obtain ⟨c', hc', hcall⟩ := h id r e hbefore
      exact ⟨c', List.mem_append_left _ hc', hcall⟩
  | ratified approval hcall =>
      have htime := htruthful id approval hcall hbefore
      refine ⟨c, List.mem_append_right _ (List.mem_singleton_self c), approval, hcall, ?_⟩
      exact Int.add_le_add_right htime _

theorem waiting_run {calls : List TimedCall}
    (h : Run.Along (step D) (fun m c => Fresh m c ∧ Truthful m c) new calls) :
    (Run.after (step D) new calls).changePolicy = .default ∧
      Waiting calls (Run.after (step D) new calls) := by
  induction calls using List.reverseRecOn with
  | nil => exact ⟨rfl, fun id r e hnone => by cases hnone⟩
  | append_singleton past c ih =>
      obtain ⟨hpast, ⟨hfresh, htruthful⟩, -⟩ := (Run.along_append _ _ _ _ _).mp h
      obtain ⟨hpolicy, hwaiting⟩ := ih hpast
      rw [Run.after_append]
      exact ⟨(changePolicy_step D _ c).trans hpolicy, hwaiting.step D hpolicy hfresh htruthful⟩

/-- Each proposal moves along its way, and is applied a day or more after a call that ratified
it. -/
def Waits (past : List TimedCall) (c : TimedCall) (id : Uuid) : Prop :=
  Moves c id ((Run.after (step D) new past).state id)
      ((Run.after (step D) new (past ++ [c])).state id) ∧
    ∀ t, (Run.after (step D) new (past ++ [c])).state id = some (.applied t) →
      (Run.after (step D) new past).state id ≠ some (.applied t) →
        t = c.time ∧ ∃ c' ∈ past, ∃ approval, c'.call = .ratify id approval ∧
          c'.time + approvalDelay ≤ t

/-- As long as no token is older than its use, governance changes wait. -/
theorem applied_waits {past : List TimedCall} {c : TimedCall}
    (h : Run.Along (step D) (fun m c => Fresh m c ∧ Truthful m c) new (past ++ [c])) (id : Uuid) :
    Waits D past c id := by
  obtain ⟨hpast, ⟨hfresh, -⟩, -⟩ := (Run.along_append _ _ _ _ _).mp h
  obtain ⟨hpolicy, hwaiting⟩ := waiting_run D hpast
  rw [Waits, Run.after_append]
  have hmoves := moves_step D hpolicy hfresh id
  refine ⟨hmoves, fun t happlied hnew => ?_⟩
  rw [Run.after_cons, Run.after_nil] at happlied
  rw [happlied] at hmoves
  generalize hbefore : (Run.after (step D) new past).state id = before at hmoves hnew
  cases hmoves with
  | stays => exact absurd rfl hnew
  | applied r e hcall hready =>
      obtain ⟨c', hc', approval, hcall', hdue⟩ := hwaiting id r e hbefore
      exact ⟨rfl, c', hc', approval, hcall', hdue.trans hready⟩

/-! ## Tokens older than their use -/

theorem state_ratify {m : MetaGovernance} (hpolicy : m.changePolicy = .default) {id : Uuid}
    (hpending : m.state id = some .pending) {approval : HumanApproval}
    (hmax : approval.approvedAt + approvalDelay ≤ maxUtc) (now : Nanos) :
    (step D m ⟨now, .ratify id approval⟩).state id =
      some (.ratified approval.approvedAt (approval.approvedAt + approvalDelay)) := by
  obtain ⟨record, hrecord, hstate⟩ := Option.map_eq_some_iff.mp hpending
  have hdelay : m.changePolicy.approvalDelay = approvalDelay := by rw [hpolicy]; rfl
  simp only [step, ratify, hrecord, hstate, ne_eq, not_true_eq_false, if_false, hdelay,
    if_neg (not_lt.mpr hmax)]
  rw [state_put, if_pos rfl]

theorem state_applyIfReady {m : MetaGovernance} {id : Uuid} {r e t : Nanos}
    (hratified : m.state id = some (.ratified r e)) (hready : e ≤ t) :
    (step D m ⟨t, .applyIfReady id⟩).state id = some (.applied t) := by
  obtain ⟨record, hrecord, hstate⟩ := Option.map_eq_some_iff.mp hratified
  simp only [step, applyIfReady, hrecord, hstate, if_neg (not_lt.mpr hready)]
  rw [state_put, if_pos rfl]

/-- Every token that is older than its use lets its proposal be applied too early. -/
theorem applied_early {m : MetaGovernance} (hpolicy : m.changePolicy = .default) {id : Uuid}
    (hpending : m.state id = some .pending) {approval : HumanApproval} {now : Nanos}
    (hmax : approval.approvedAt + approvalDelay ≤ maxUtc) (hold : approval.approvedAt < now) :
    ∃ t, now ≤ t ∧ t < now + approvalDelay ∧
      (step D (step D m ⟨now, .ratify id approval⟩) ⟨t, .applyIfReady id⟩).state id =
        some (.applied t) := by
  refine ⟨max now (approval.approvedAt + approvalDelay), le_max_left _ _, ?_, ?_⟩
  · refine max_lt ?_ (Int.add_lt_add_right hold _)
    exact Int.lt_add_of_pos_right now (by decide)
  · exact state_applyIfReady D (state_ratify D hpolicy hpending hmax now) (le_max_right _ _)

/-- A proposal, ratified at once with a token from the epoch. -/
def ratifiedRun (now : Nanos) : List TimedCall :=
  [⟨now, .propose (.numbered 7) ⟨"raise the risk floor", .null, "agent", now⟩⟩,
    ⟨now, .ratify (.numbered 7) ⟨"operator", 0, none, none⟩⟩]

theorem fresh_ratifiedRun (now t : Nanos) :
    Run.Along (step D) Fresh new
      (ratifiedRun now ++ [⟨t, .applyIfReady (.numbered 7)⟩]) := by
  refine ⟨?_, ?_, ?_, trivial⟩
  · intro id change hcall
    cases hcall
    rfl
  · intro id change hcall
    cases hcall
  · intro id change hcall
    cases hcall

/-- A token that is as old as its use: applied after a day. -/
theorem applied_waits_ratifiedRun :
    (Run.after (step ⟨fun _ => "", fun _ => ""⟩) new
        (ratifiedRun 0 ++ [⟨approvalDelay, .applyIfReady (.numbered 7)⟩])).state (.numbered 7) =
          some (.applied approvalDelay) ∧
      Waits ⟨fun _ => "", fun _ => ""⟩ (ratifiedRun 0)
        ⟨approvalDelay, .applyIfReady (.numbered 7)⟩ (.numbered 7) := by
  refine ⟨by decide, applied_waits _ ?_ (.numbered 7)⟩
  refine (fresh_ratifiedRun _ 0 approvalDelay).and (step _) ⟨?_, ?_, ?_, trivial⟩
  · intro id approval hcall
    cases hcall
  · intro id approval hcall _
    cases hcall
    exact le_rfl
  · intro id approval hcall
    cases hcall

/-- Two days after the epoch, the token from the epoch lets the change be applied at once. -/
theorem not_waits_oldToken : ¬ ∀ (past : List TimedCall) (c : TimedCall),
    Run.Along (step ⟨fun _ => "", fun _ => ""⟩) Fresh new (past ++ [c]) →
      ((past ++ [c]).map (·.time)).Pairwise (· ≤ ·) →
        ∀ id, Waits ⟨fun _ => "", fun _ => ""⟩ past c id := by
  intro h
  obtain ⟨-, hwait⟩ := h (ratifiedRun (2 * approvalDelay))
    ⟨2 * approvalDelay, .applyIfReady (.numbered 7)⟩ (fresh_ratifiedRun _ _ _) (by decide)
    (.numbered 7)
  obtain ⟨-, c, hc, approval, hcall, hdue⟩ := hwait (2 * approvalDelay) (by decide) (by decide)
  have htime : ∀ c ∈ ratifiedRun (2 * approvalDelay), c.time = 2 * approvalDelay := by
    decide
  rw [htime c hc] at hdue
  exact absurd hdue (by decide)

end MetaGovernance

end Hal

/-
# `Cognos.Hal.GovernanceKernel` — the table of governance policies

`governance_kernel.rs`: policies are installed and removed, and a request gets the effect of
the first policy of the table that matches it, or is denied.  The table is sorted again,
stably, after each installation.

    install_ok_iff    which policies are accepted (`Accepts`)
    Ranks             the table against the policies that stand, in order of installation
    evaluate_first    the first match decides, and without one the request is denied
    evaluate_place    a policy changes only what it matches and nothing before it does
    removed_eq        a policy that comes and goes leaves no trace
    table_of_calls    all of it, after any installations and removals
-/
import Mathlib
import Cognos.Lib.StableSort
import Cognos.Lib.Run
import Cognos.Lib.Uuid

namespace Hal

open StableSort

variable {Time : Type}

/-! ## Policies -/

/-- The effect a policy has on a matching request. -/
inductive PolicyEffect
  | allow | deny | ask | log
  deriving DecidableEq, Repr

/-- An action request, as it is submitted to the governance kernel. -/
structure GovernedRequest where
  agent : String
  actionType : String
  target : String
  riskScore : Float32

inductive Condition
  | always
  | actionEquals (s : String)
  | agentEquals (s : String)
  | riskAtLeast (t : Float32)
  | and (a b : Condition)
  | or (a b : Condition)

/-- `Condition::matches`. -/
def Condition.holds : Condition → GovernedRequest → Bool
  | .always, _ => true
  | .actionEquals s, request => request.actionType = s
  | .agentEquals s, request => request.agent = s
  | .riskAtLeast t, request => t ≤ request.riskScore
  | .and a b, request => a.holds request && b.holds request
  | .or a b, request => a.holds request || b.holds request

structure GovernancePolicy (Time : Type) where
  id : Uuid
  priority : Int
  condition : Condition
  effect : PolicyEffect
  description : String
  installedAt : Time

/-- The kernel's verdict; without a policy it is the default. -/
structure GovernanceVerdict (Time : Type) where
  effect : PolicyEffect
  policyId : Option Uuid
  reason : String
  stamp : Time

inductive PolicyError
  | duplicatePolicy (id : Uuid)
  | invalidPriority (priority : Int)

def PolicyError.text : PolicyError → String
  | .duplicatePolicy id => "policy " ++ id.text ++ " already installed"
  | .invalidPriority p => "policy priority " ++ toString p ++ " is in a reserved range"

/-! ## The kernel -/

/-- The policy table, and a cache that nothing writes yet. -/
structure GovernanceKernel (Time : Type) where
  policies : List (GovernancePolicy Time)
  verdictCache : AList fun _ : String => GovernanceVerdict Time

namespace GovernanceKernel

def new : GovernanceKernel Time := ⟨[], ∅⟩

/-- The range `[-1000, -1]` is kept for the kernel's own defaults. -/
def reserved (priority : Int) : Bool := -1000 ≤ priority && priority ≤ -1

def installPolicy (k : GovernanceKernel Time) (policy : GovernancePolicy Time) :
    Except PolicyError Unit × GovernanceKernel Time :=
  if k.policies.any (·.id = policy.id) then (.error (.duplicatePolicy policy.id), k)
  else if reserved policy.priority then (.error (.invalidPriority policy.priority), k)
  else
    (.ok (), { policies := (k.policies ++ [policy]).insertionSort (Ahead (·.priority))
               verdictCache := ∅ })

/-- Whether a policy was removed, and the kernel without it. -/
def removePolicy (k : GovernanceKernel Time) (id : Uuid) : Bool × GovernanceKernel Time :=
  let policies := k.policies.filter (·.id ≠ id)
  let removed : Bool := policies.length < k.policies.length
  (removed, { policies := policies, verdictCache := if removed then ∅ else k.verdictCache })

def evaluate (k : GovernanceKernel Time) (now : Time) (request : GovernedRequest) :
    GovernanceVerdict Time :=
  match k.policies.find? (·.condition.holds request) with
  | some policy =>
      { effect := policy.effect
        policyId := some policy.id
        reason := "matched policy '" ++ policy.description ++ "' (priority " ++
          toString policy.priority ++ ")"
        stamp := now }
  | none =>
      { effect := .deny
        policyId := none
        reason := "no matching policy — default-deny"
        stamp := now }

/-! ## One installation -/

/-- A policy is accepted among these: its id is new, and its priority not reserved. -/
def Accepts (policies : List (GovernancePolicy Time)) (policy : GovernancePolicy Time) : Prop :=
  (∀ q ∈ policies, q.id ≠ policy.id) ∧ reserved policy.priority = false

section Install

variable {k : GovernanceKernel Time} {policy : GovernancePolicy Time}

/-- The table is in order of priority. -/
def Sorted (k : GovernanceKernel Time) : Prop := k.policies.Pairwise (Ahead (·.priority))

theorem any_id_iff : k.policies.any (·.id = policy.id) = true ↔
    ¬ ∀ q ∈ k.policies, q.id ≠ policy.id := by
  simp only [List.any_eq_true, decide_eq_true_eq, not_forall, not_not, exists_prop]

theorem install_ok (hk : k.Sorted) (h : Accepts k.policies policy) :
    k.installPolicy policy =
      (.ok (), { policies := place (·.priority) policy k.policies, verdictCache := ∅ }) := by
  rw [installPolicy, if_neg fun hany => any_id_iff.mp hany h.1, h.2, sort_concat hk]
  rfl

/-- What is refused changes nothing. -/
theorem install_error (h : ¬ Accepts k.policies policy) :
    (∃ e, (k.installPolicy policy).1 = .error e) ∧ (k.installPolicy policy).2 = k := by
  unfold installPolicy
  split_ifs with hany hreserved
  · exact ⟨⟨_, rfl⟩, rfl⟩
  · exact ⟨⟨_, rfl⟩, rfl⟩
  · refine absurd ⟨?_, Bool.eq_false_iff.mpr hreserved⟩ h
    rw [any_id_iff, not_not] at hany
    exact hany

theorem install_ok_iff (hk : k.Sorted) :
    (k.installPolicy policy).1 = .ok () ↔ Accepts k.policies policy := by
  constructor
  · intro hok
    by_contra h
    obtain ⟨⟨e, he⟩, -⟩ := install_error h
    rw [he] at hok
    cases hok
  · intro h
    rw [install_ok hk h]

end Install

/-! ## Evaluation -/

section Evaluate

variable {k k' : GovernanceKernel Time} {policy : GovernancePolicy Time} {now : Time}
  {request : GovernedRequest}

theorem evaluate_congr (h : k.policies = k'.policies) :
    k.evaluate now request = k'.evaluate now request := by
  rw [evaluate, evaluate, h]

/-- The first policy that matches decides. -/
theorem evaluate_first {before after : List (GovernancePolicy Time)}
    (htable : k.policies = before ++ policy :: after)
    (hskip : ∀ q ∈ before, q.condition.holds request = false)
    (hmatch : policy.condition.holds request = true) :
    (k.evaluate now request).effect = policy.effect ∧
      (k.evaluate now request).policyId = some policy.id := by
  have hfind : k.policies.find? (·.condition.holds request) = some policy := by
    refine List.find?_eq_some_iff_append.mpr ⟨hmatch, before, after, htable, ?_⟩
    intro q hq
    rw [hskip q hq]
    rfl
  rw [evaluate, hfind]
  exact ⟨rfl, rfl⟩

/-- Without a match, the request is denied. -/
theorem evaluate_default (hnone : ∀ q ∈ k.policies, q.condition.holds request = false) :
    (k.evaluate now request).effect = .deny ∧ (k.evaluate now request).policyId = none := by
  have hfind : k.policies.find? (·.condition.holds request) = none := by
    refine List.find?_eq_none.mpr fun q hq => ?_
    rw [hnone q hq]
    exact Bool.false_ne_true
  rw [evaluate, hfind]
  exact ⟨rfl, rfl⟩

/-- A policy put in its place changes only verdicts on what it matches and no policy of its
priority or a higher one does. -/
theorem evaluate_place (hk : k.Sorted) (htable : k'.policies = place (·.priority) policy k.policies)
    (hchange : k'.evaluate now request ≠ k.evaluate now request) :
    policy.condition.holds request = true ∧
      ∀ q ∈ k.policies, policy.priority ≤ q.priority → q.condition.holds request = false := by
  let upper := k.policies.filter fun q => policy.priority ≤ q.priority
  let lower := k.policies.filter fun q => q.priority < policy.priority
  have hold : k.policies = upper ++ lower := (split_sorted hk).symm
  have hnew : k'.policies = upper ++ policy :: lower := htable
  have hfind : k'.policies.find? (·.condition.holds request) ≠
      k.policies.find? (·.condition.holds request) := by
    intro hsame
    refine hchange ?_
    rw [evaluate, evaluate, hsame]
  rw [hold, hnew, List.find?_append, List.find?_append, List.find?_cons] at hfind
  have hupper : upper.find? (·.condition.holds request) = none := by
    by_contra hsome
    obtain ⟨q, hq⟩ := Option.ne_none_iff_exists'.mp hsome
    rw [hq] at hfind
    exact hfind rfl
  have hpolicy : policy.condition.holds request = true := by
    by_contra hnot
    rw [Bool.not_eq_true] at hnot
    rw [hnot] at hfind
    exact hfind rfl
  refine ⟨hpolicy, fun q hq hle => ?_⟩
  have hmem : q ∈ upper := List.mem_filter.mpr ⟨hq, decide_eq_true hle⟩
  exact Bool.eq_false_iff.mpr (List.find?_eq_none.mp hupper q hmem)

end Evaluate

/-! ## Calls -/

inductive PolicyCall (Time : Type)
  | install (policy : GovernancePolicy Time)
  | remove (id : Uuid)

/-- The kernel behind a call. -/
def call (k : GovernanceKernel Time) : PolicyCall Time → GovernanceKernel Time
  | .install policy => (k.installPolicy policy).2
  | .remove id => (k.removePolicy id).2

open Classical in
/-- The policies that stand, in the order in which they were installed. -/
noncomputable def record (standing : List (GovernancePolicy Time)) :
    PolicyCall Time → List (GovernancePolicy Time)
  | .install policy => if Accepts standing policy then standing ++ [policy] else standing
  | .remove id => standing.filter (·.id ≠ id)

/-- The table is in order of priority, and of installation where priorities are equal. -/
structure Ranks (standing table : List (GovernancePolicy Time)) : Prop where
  perm : table.Perm standing
  order : table.Pairwise fun a b =>
    b.priority < a.priority ∨ (a.priority = b.priority ∧ [a, b].Sublist standing)

section Calls

variable {k : GovernanceKernel Time} {standing table : List (GovernancePolicy Time)}
  {policy : GovernancePolicy Time}

theorem Ranks.sorted (h : Ranks standing k.policies) : k.Sorted := by
  refine h.order.imp ?_
  rintro a b (hlt | ⟨heq, -⟩)
  · exact hlt.le
  · exact heq.ge

theorem Ranks.accepts_iff (h : Ranks standing table) :
    Accepts standing policy ↔ Accepts table policy := by
  unfold Accepts
  simp only [h.perm.mem_iff]

theorem Ranks.place (h : Ranks standing table) :
    Ranks (standing ++ [policy]) (place (·.priority) policy table) := by
  have hlater : ∀ {a b : GovernancePolicy Time}, (b.priority < a.priority ∨
      (a.priority = b.priority ∧ [a, b].Sublist standing)) → (b.priority < a.priority ∨
        (a.priority = b.priority ∧ [a, b].Sublist (standing ++ [policy]))) := by
    rintro a b (hlt | ⟨heq, hsub⟩)
    · exact Or.inl hlt
    · exact Or.inr ⟨heq, hsub.trans (List.sublist_append_left _ _)⟩
  refine ⟨?_, List.pairwise_append.mpr ⟨?_, List.pairwise_cons.mpr ⟨?_, ?_⟩, ?_⟩⟩
  · exact perm_place.trans ((h.perm.cons policy).trans (List.perm_append_singleton _ _).symm)
  · exact (h.order.imp hlater).filter _
  · intro b hb
    exact Or.inl (of_decide_eq_true (List.mem_filter.mp hb).2)
  · exact (h.order.imp hlater).filter _
  · intro a ha b hb
    obtain ⟨hmem, hle⟩ := List.mem_filter.mp ha
    have hle : policy.priority ≤ a.priority := of_decide_eq_true hle
    rcases List.mem_cons.mp hb with rfl | hb
    · rcases hle.lt_or_eq with hlt | heq
      · exact Or.inl hlt
      · have hsub : [a].Sublist standing := List.singleton_sublist.mpr (h.perm.mem_iff.mp hmem)
        exact Or.inr ⟨heq.symm, hsub.append (.refl [b])⟩
    · have hlt : b.priority < policy.priority := of_decide_eq_true (List.mem_filter.mp hb).2
      exact Or.inl (hlt.trans_le hle)

theorem Ranks.filter (h : Ranks standing table) (p : GovernancePolicy Time → Bool) :
    Ranks (standing.filter p) (table.filter p) := by
  refine ⟨h.perm.filter p, ?_⟩
  rw [List.pairwise_filter]
  refine h.order.imp ?_
  rintro a b (hlt | ⟨heq, hsub⟩) ha hb
  · exact Or.inl hlt
  · have hsub' := hsub.filter p
    rw [List.filter_cons_of_pos ha, List.filter_cons_of_pos hb] at hsub'
    exact Or.inr ⟨heq, hsub'⟩

/-- A call keeps the table in order. -/
theorem Ranks.call (h : Ranks standing k.policies) (c : PolicyCall Time) :
    Ranks (record standing c) (k.call c).policies := by
  cases c with
  | install policy =>
      rw [record]
      split_ifs with haccepts
      · rw [GovernanceKernel.call, install_ok h.sorted (h.accepts_iff.mp haccepts)]
        exact h.place
      · rw [GovernanceKernel.call, (install_error (mt h.accepts_iff.mpr haccepts)).2]
        exact h
  | remove id => exact h.filter _

/-- A call keeps the ids distinct. -/
theorem nodup_call (hk : k.Sorted) (h : (k.policies.map (·.id)).Nodup) (c : PolicyCall Time) :
    ((k.call c).policies.map (·.id)).Nodup := by
  cases c with
  | install policy =>
      by_cases haccepts : Accepts k.policies policy
      · rw [call, install_ok hk haccepts, (perm_place.map _).nodup_iff, List.map_cons]
        refine List.nodup_cons.mpr ⟨fun hmem => ?_, h⟩
        obtain ⟨q, hq, hid⟩ := List.mem_map.mp hmem
        exact haccepts.1 q hq hid
      · rw [call, (install_error haccepts).2]
        exact h
  | remove id => exact h.sublist (List.filter_sublist.map _)

/-- After any calls, the table holds what stands, in order, under distinct ids. -/
theorem ranks_calls (calls : List (PolicyCall Time)) :
    Ranks (Run.after record [] calls) (Run.after call new calls).policies ∧
      ((Run.after call new calls).policies.map (·.id)).Nodup := by
  have hrun : ∀ (k : GovernanceKernel Time) (standing : List (GovernancePolicy Time)),
      Ranks standing k.policies → (k.policies.map (·.id)).Nodup →
        Ranks (Run.after record standing calls) (Run.after GovernanceKernel.call k calls).policies ∧
          ((Run.after GovernanceKernel.call k calls).policies.map (·.id)).Nodup := by
    induction calls with
    | nil => exact fun k standing hranks hnodup => ⟨hranks, hnodup⟩
    | cons c calls ih =>
        exact fun k standing hranks hnodup =>
          ih _ _ (hranks.call c) (nodup_call hranks.sorted hnodup c)
  exact hrun new [] ⟨.refl _, .nil⟩ .nil

end Calls

/-! ## A policy that comes and goes -/

/-- A call that is about the policy of this id. -/
def PolicyCall.About (id : Uuid) : PolicyCall Time → Prop
  | .install policy => policy.id = id
  | .remove id' => id' = id

section Removed

variable {k k' : GovernanceKernel Time} {id : Uuid}

/-- The two kernels differ in the policy of this id only. -/
def Without (id : Uuid) (k k' : GovernanceKernel Time) : Prop :=
  k.Sorted ∧ k'.policies = k.policies.filter (·.id ≠ id)

theorem Without.accepts_iff (h : Without id k k') {policy : GovernancePolicy Time}
    (hid : policy.id ≠ id) : Accepts k'.policies policy ↔ Accepts k.policies policy := by
  unfold Accepts
  rw [h.2]
  refine and_congr_left fun _ => ⟨fun hnew q hq heq => ?_, fun hnew q hq => ?_⟩
  · refine hnew q (List.mem_filter.mpr ⟨hq, decide_eq_true ?_⟩) heq
    exact heq ▸ hid
  · exact hnew q (List.mem_filter.mp hq).1

theorem Without.sorted (h : Without id k k') : k'.Sorted := by
  rw [Sorted, h.2]
  exact List.Pairwise.filter _ h.1

theorem Without.call (h : Without id k k') {c : PolicyCall Time} (hc : ¬ c.About id) :
    Without id (k.call c) (k'.call c) := by
  cases c with
  | install policy =>
      have hid : decide (policy.id ≠ id) = true := decide_eq_true hc
      by_cases haccepts : Accepts k.policies policy
      · have haccepts' := (h.accepts_iff hc).mpr haccepts
        rw [GovernanceKernel.call, GovernanceKernel.call, install_ok h.1 haccepts,
          install_ok h.sorted haccepts']
        refine ⟨pairwise_place h.1, ?_⟩
        show place _ policy k'.policies = (place _ policy k.policies).filter _
        rw [filter_place (p := fun q : GovernancePolicy Time => decide (q.id ≠ id)) hid, h.2]
      · have haccepts' := mt (h.accepts_iff hc).mp haccepts
        rw [GovernanceKernel.call, GovernanceKernel.call, (install_error haccepts).2,
          (install_error haccepts').2]
        exact h
  | remove id' =>
      refine ⟨List.Pairwise.filter _ h.1, ?_⟩
      show k'.policies.filter _ = (k.policies.filter _).filter _
      rw [h.2, List.filter_filter, List.filter_filter]
      simp only [Bool.and_comm]

theorem Without.calls (h : Without id k k') {calls : List (PolicyCall Time)}
    (hcalls : ∀ c ∈ calls, ¬ c.About id) :
    Without id (Run.after GovernanceKernel.call k calls) (Run.after GovernanceKernel.call k' calls)
    := by
  induction calls generalizing k k' with
  | nil => exact h
  | cons c calls ih =>
      obtain ⟨hc, hrest⟩ := List.forall_mem_cons.mp hcalls
      exact ih (h.call hc) hrest

/-- A policy that is installed and, after calls about others, removed leaves the table those
calls alone give. -/
theorem removed_eq (hk : k.Sorted) {policy : GovernancePolicy Time}
    (haccepts : Accepts k.policies policy) {calls : List (PolicyCall Time)}
    (hcalls : ∀ c ∈ calls, ¬ c.About policy.id) :
    ((Run.after call (k.installPolicy policy).2 calls).removePolicy policy.id).2.policies =
      (Run.after call k calls).policies := by
  have hwithout : Without policy.id (k.installPolicy policy).2 k := by
    rw [install_ok hk haccepts]
    refine ⟨pairwise_place hk, ?_⟩
    show k.policies = (place _ policy k.policies).filter _
    have hself : decide (policy.id ≠ policy.id) = false := by simp
    rw [filter_place_of_not hk hself, List.filter_eq_self.mpr]
    exact fun q hq => decide_eq_true (haccepts.1 q hq)
  exact (hwithout.calls hcalls).2.symm

end Removed

/-! ## The policy table -/

/-- After any installations and removals, the table holds the policies that stand, under
distinct ids, by priority and then in order of installation; a refused policy changes nothing;
the first match decides, and without one the request is denied; an installed policy changes only
verdicts on what it matches and no policy in front of it does, and removing it takes back what
it changed. -/
theorem table_of_calls (calls : List (PolicyCall Time)) :
    let k := Run.after call new calls
    (k.policies.map (·.id)).Nodup ∧ Ranks (Run.after record [] calls) k.policies ∧
      (∀ policy e, (k.installPolicy policy).1 = .error e → (k.installPolicy policy).2 = k) ∧
      (∀ now request,
        (∀ before policy after, k.policies = before ++ policy :: after →
          (∀ q ∈ before, q.condition.holds request = false) →
            policy.condition.holds request = true →
              (k.evaluate now request).effect = policy.effect ∧
                (k.evaluate now request).policyId = some policy.id) ∧
          ((∀ q ∈ k.policies, q.condition.holds request = false) →
            (k.evaluate now request).effect = .deny ∧
              (k.evaluate now request).policyId = none)) ∧
      ∀ policy, (k.installPolicy policy).1 = .ok () →
        (∀ now request,
          (k.installPolicy policy).2.evaluate now request ≠ k.evaluate now request →
            policy.condition.holds request = true ∧ ∀ q ∈ k.policies,
              policy.priority ≤ q.priority → q.condition.holds request = false) ∧
        ∀ later : List (PolicyCall Time), (∀ c ∈ later, ¬ c.About policy.id) →
          ∀ now request,
            ((Run.after call (k.installPolicy policy).2 later).removePolicy policy.id).2.evaluate
              now request = (Run.after call k later).evaluate now request := by
  intro k
  obtain ⟨hranks, hnodup⟩ : Ranks (Run.after record [] calls) k.policies ∧ _ := ranks_calls calls
  have hk := hranks.sorted
  refine ⟨hnodup, hranks, ?_, ?_, ?_⟩
  · intro policy e he
    have hnot : ¬ Accepts k.policies policy := by
      intro haccepts
      rw [install_ok hk haccepts] at he
      cases he
    exact (install_error hnot).2
  · intro now request
    exact ⟨fun before policy after => evaluate_first, evaluate_default⟩
  · intro policy hok
    have haccepts := (install_ok_iff hk).mp hok
    refine ⟨fun now request => evaluate_place hk ?_, fun later hlater now request => ?_⟩
    · rw [install_ok hk haccepts]
    · exact evaluate_congr (removed_eq hk haccepts hlater)

end GovernanceKernel

end Hal

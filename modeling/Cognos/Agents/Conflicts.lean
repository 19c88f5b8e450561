/-
# `Cognos.Agents.Conflicts` — actions that aim at one target

`_resolve_conflicts` goes through the proposed actions once.  It remembers which action stands
for a target, and keeps a list of the actions that stand; a later one of no less confidence
takes the place of the one that stood.  The actions are objects that others hold too: they are
told apart by a reference, and a heap has their fields, so that a flag set on one is seen
wherever it is held.

    Resolving                   what holds of the loop after some actions
    Resolving.step              and after one more
    resolveConflicts_resolved   the list that comes back
-/
import Cognos.Agents.Coordinator
import Cognos.Lib.FloatOrder
import Cognos.Lib.LatestMax

namespace Agents

open Py (Fields)

/-! ## Actions and the heap -/

structure ProposedAction where
  action : String
  target : String
  agent : String
  confidence : Float
  reversible : Bool
  halPreScore : Float
  parameters : Fields
  conflictFlag : Bool
  conflictNote : String

/-- What tells one object from another. -/
abbrev Ref := Nat

abbrev Heap := Ref → ProposedAction

/-- `action.conflict_flag = True` and its note. -/
def Heap.flag (heap : Heap) (r : Ref) (note : String) : Heap :=
  Function.update heap r { heap r with conflictFlag := true, conflictNote := note }

/-! ## The loop -/

/-- The loop: the objects, which of them stands for a target, those that stand in order, and
the conflicts that were logged. -/
structure Resolution where
  heap : Heap
  seenTargets : String → Option Ref
  resolved : List Ref
  logged : List (Ref × Ref)

namespace Resolution

def start (heap : Heap) : Resolution := ⟨heap, fun _ => none, [], []⟩

/-- A first proposal for its target. -/
def enter (s : Resolution) (action : Ref) : Resolution :=
  { s with
    seenTargets := Function.update s.seenTargets (s.heap action).target (some action)
    resolved := s.resolved ++ [action] }

/-- The conflict is logged, and the action that stood is flagged. -/
def dispute (s : Resolution) (existing action : Ref) : Resolution :=
  { s with
    heap := s.heap.flag existing ("Also proposed by " ++ (s.heap action).agent)
    logged := s.logged ++ [(existing, action)] }

/-- The action takes the place of the one that stood, and is flagged too. -/
def displace (s : Resolution) (existing action : Ref) : Resolution :=
  let target := (s.heap action).target
  { s with
    heap := s.heap.flag action ("Conflicts with " ++ (s.heap existing).agent)
    seenTargets := Function.update s.seenTargets target (some action)
    resolved := s.resolved.filter (fun a => (s.heap a).target ≠ target) ++ [action] }

/-- The body of the loop. -/
def step (s : Resolution) (action : Ref) : Resolution :=
  match s.seenTargets (s.heap action).target with
  | some existing =>
      let s' := s.dispute existing action
      if (s.heap existing).confidence ≤ (s.heap action).confidence then
        s'.displace existing action
      else s'
  | none => s.enter action

end Resolution

/-- `_resolve_conflicts`: the list that comes back, and the objects as they are then. -/
def resolveConflicts (heap : Heap) (actions : List Ref) : Resolution :=
  actions.foldl Resolution.step (.start heap)

/-! ## What an object keeps -/

/-- Only the flag and its note of an object may have changed. -/
def SameAction (a b : ProposedAction) : Prop :=
  b = { a with conflictFlag := b.conflictFlag, conflictNote := b.conflictNote }

theorem SameAction.refl (a : ProposedAction) : SameAction a a := rfl

theorem SameAction.trans {a b c : ProposedAction} (h : SameAction a b) (h' : SameAction b c) :
    SameAction a c := by
  unfold SameAction at h h' ⊢
  rw [h', h]

theorem SameAction.target {a b : ProposedAction} (h : SameAction a b) : b.target = a.target := by
  rw [h]

theorem SameAction.confidence {a b : ProposedAction} (h : SameAction a b) :
    b.confidence = a.confidence := by
  rw [h]

theorem sameAction_flag (heap : Heap) (r : Ref) (note : String) (r' : Ref) :
    SameAction (heap r') (heap.flag r note r') := by
  unfold Heap.flag
  by_cases h : r' = r
  · subst h
    rw [Function.update_self]
    exact rfl
  · rw [Function.update_of_ne h]
    exact rfl

theorem conflictFlag_flag (heap : Heap) (r : Ref) (note : String) (r' : Ref) :
    (heap.flag r note r').conflictFlag = (decide (r' = r) || (heap r').conflictFlag) := by
  unfold Heap.flag
  by_cases h : r' = r
  · subst h
    rw [Function.update_self, decide_eq_true rfl]
    rfl
  · rw [Function.update_of_ne h, decide_eq_false h, Bool.false_or]

/-! ## What holds of the loop -/

section

variable (heap : Heap)

/-- The proposals for a target. -/
def proposals (target : String) (actions : List Ref) : List Ref :=
  actions.filter fun r => (heap r).target = target

/-- The action has no rival for its target. -/
def Once (actions : List Ref) (r : Ref) : Prop :=
  (proposals heap (heap r).target actions).length = 1

instance (actions : List Ref) (r : Ref) : Decidable (Once heap actions r) :=
  inferInstanceAs (Decidable (_ = 1))

/-- Of the proposals for the target it is the latest of those of the greatest confidence. -/
def Stands (target : String) (actions : List Ref) (r : Ref) : Prop :=
  Latest.IsMax (fun a b => (heap a).confidence ≤ (heap b).confidence)
    (proposals heap target actions) r

/-- The loop has gone through `past`, starting from `heap`. -/
structure Resolving (past : List Ref) (s : Resolution) : Prop where
  same : ∀ r, SameAction (heap r) (s.heap r)
  untouched : ∀ r ∉ past, s.heap r = heap r
  unseen : ∀ t, s.seenTargets t = none ↔ proposals heap t past = []
  stands : ∀ t r, s.seenTargets t = some r → Stands heap t past r
  resolved : ∀ r, r ∈ s.resolved ↔ s.seenTargets (heap r).target = some r
  distinct : (s.resolved.map fun r => (heap r).target).Nodup
  flagged : ∀ r ∈ s.resolved,
    (s.heap r).conflictFlag = true ↔ 2 ≤ (proposals heap (heap r).target past).length
  once : s.resolved.filter (Once heap past) = past.filter (Once heap past)

variable {heap} {past : List Ref} {s : Resolution} {a r : Ref}

theorem proposals_snoc_self (past : List Ref) (a : Ref) :
    proposals heap (heap a).target (past ++ [a]) = proposals heap (heap a).target past ++ [a] := by
  simp [proposals]

theorem proposals_snoc_of_ne {t : String} (h : t ≠ (heap a).target) (past : List Ref) :
    proposals heap t (past ++ [a]) = proposals heap t past := by
  rw [proposals, List.filter_append,
    List.filter_cons_of_neg (by simpa using fun he => h he.symm), List.filter_nil,
    List.append_nil]
  rfl

theorem mem_proposals {t : String} :
    r ∈ proposals heap t past ↔ r ∈ past ∧ (heap r).target = t := by
  rw [proposals, List.mem_filter, decide_eq_true_eq]

/-- One more action is a rival of the earlier ones for its target. -/
theorem once_snoc (hr : r ∈ past) :
    Once heap (past ++ [a]) r ↔ (heap r).target ≠ (heap a).target ∧ Once heap past r := by
  unfold Once
  by_cases ht : (heap r).target = (heap a).target
  · rw [ht, proposals_snoc_self, List.length_append, List.length_singleton]
    have hpos := List.length_pos_of_mem (mem_proposals.mpr ⟨hr, ht⟩)
    refine iff_of_false ?_ fun hc => hc.1 rfl
    omega
  · rw [proposals_snoc_of_ne ht, and_iff_right ht]

theorem filter_once_snoc {l : List Ref} (hl : ∀ r ∈ l, r ∈ past) :
    l.filter (Once heap (past ++ [a])) =
      (l.filter (Once heap past)).filter fun r => (heap r).target ≠ (heap a).target := by
  rw [List.filter_filter]
  refine List.filter_congr fun r hr => ?_
  rw [← Bool.decide_and, decide_eq_decide]
  exact once_snoc (hl r hr)

/-! ### One action more -/

namespace Resolving

theorem start (heap : Heap) : Resolving heap [] (.start heap) where
  same r := SameAction.refl _
  untouched r _ := rfl
  unseen t := iff_of_true rfl rfl
  stands t r h := by cases h
  resolved r := iff_of_false List.not_mem_nil (Option.some_ne_none r).symm
  distinct := List.nodup_nil
  flagged r hr := absurd hr List.not_mem_nil
  once := rfl

/-- What stands was proposed. -/
theorem mem_past (h : Resolving heap past s) (hr : r ∈ s.resolved) : r ∈ past :=
  (mem_proposals.mp (h.stands _ r ((h.resolved r).mp hr)).mem).1

/-- Only one action stands for a target. -/
theorem eq_of_target (h : Resolving heap past s) {t : String} {r' : Ref}
    (hseen : s.seenTargets t = some r') (hr : r ∈ s.resolved) (ht : (heap r).target = t) :
    r = r' := by
  have hr' := (h.resolved r).mp hr
  rw [ht, hseen] at hr'
  exact (Option.some.inj hr').symm

theorem unseen_update (h : Resolving heap past s) (t : String) :
    Function.update s.seenTargets (heap a).target (some a) t = none ↔
      proposals heap t (past ++ [a]) = [] := by
  by_cases ht : t = (heap a).target
  · subst ht
    rw [Function.update_self, proposals_snoc_self]
    exact iff_of_false (Option.some_ne_none a)
      (List.append_ne_nil_of_right_ne_nil _ (List.cons_ne_nil _ _))
  · rw [Function.update_of_ne ht, proposals_snoc_of_ne ht]
    exact h.unseen t

theorem stands_update (h : Resolving heap past s) (ha : Stands heap (heap a).target (past ++ [a]) a)
    {t : String} (ht : Function.update s.seenTargets (heap a).target (some a) t = some r) :
    Stands heap t (past ++ [a]) r := by
  by_cases hta : t = (heap a).target
  · subst hta
    rw [Function.update_self] at ht
    rw [← Option.some.inj ht]
    exact ha
  · rw [Function.update_of_ne hta] at ht
    rw [Stands, proposals_snoc_of_ne hta]
    exact h.stands t r ht

theorem resolved_update (h : Resolving heap past s) (r : Ref) :
    (r ∈ (s.resolved.filter fun r => (heap r).target ≠ (heap a).target) ++ [a]) ↔
      Function.update s.seenTargets (heap a).target (some a) (heap r).target = some r := by
  rw [List.mem_append, List.mem_singleton, List.mem_filter, decide_eq_true_eq]
  by_cases hr : (heap r).target = (heap a).target
  · rw [hr, Function.update_self, or_iff_right fun hm => hm.2 rfl, Option.some_inj]
    exact eq_comm
  · have hne : r ≠ a := fun he => hr (by rw [he])
    rw [Function.update_of_ne hr, or_iff_left hne, and_iff_left hr]
    exact h.resolved r

theorem distinct_update (h : Resolving heap past s) :
    (((s.resolved.filter fun r => (heap r).target ≠ (heap a).target) ++ [a]).map
      fun r => (heap r).target).Nodup := by
  rw [List.map_append, List.map_singleton, List.nodup_append]
  refine ⟨h.distinct.sublist (List.filter_sublist.map _), List.nodup_singleton _, ?_⟩
  intro t ht t' ht'
  obtain ⟨r, hr, rfl⟩ := List.mem_map.mp ht
  rw [List.mem_singleton.mp ht']
  exact of_decide_eq_true (List.mem_filter.mp hr).2

theorem once_update (h : Resolving heap past s) :
    ((s.resolved.filter fun r => (heap r).target ≠ (heap a).target) ++ [a]).filter
      (Once heap (past ++ [a])) = (past ++ [a]).filter (Once heap (past ++ [a])) := by
  rw [List.filter_append, List.filter_append, filter_once_snoc fun r hr => hr, ← h.once,
    filter_once_snoc fun r hr => h.mem_past (List.mem_filter.mp hr).1]
  congr 1
  rw [List.filter_filter, List.filter_filter, List.filter_filter]
  refine List.filter_congr fun r _ => ?_
  cases decide ((heap r).target ≠ (heap a).target) <;> simp

/-- The action comes to stand for its target, in the place of any that stood. -/
theorem take (h : Resolving heap past s) {s' : Resolution}
    (hsame : ∀ r, SameAction (heap r) (s'.heap r))
    (huntouched : ∀ r ∉ past ++ [a], s'.heap r = heap r)
    (hothers : ∀ r, (heap r).target ≠ (heap a).target → s'.heap r = s.heap r)
    (hseen : s'.seenTargets = Function.update s.seenTargets (heap a).target (some a))
    (hresolved : s'.resolved =
      (s.resolved.filter fun r => (heap r).target ≠ (heap a).target) ++ [a])
    (hstands : Stands heap (heap a).target (past ++ [a]) a)
    (hflag : (s'.heap a).conflictFlag = true ↔
      2 ≤ (proposals heap (heap a).target (past ++ [a])).length) :
    Resolving heap (past ++ [a]) s' where
  same := hsame
  untouched := huntouched
  unseen t := by
    rw [hseen]
    exact h.unseen_update t
  stands t r ht := by
    rw [hseen] at ht
    exact h.stands_update hstands ht
  resolved r := by
    rw [hseen, hresolved]
    exact h.resolved_update r
  distinct := by
    rw [hresolved]
    exact h.distinct_update
  flagged r hr := by
    rw [hresolved] at hr
    rcases List.mem_append.mp hr with hr | hr
    · obtain ⟨hr, ht⟩ := List.mem_filter.mp hr
      have hne : (heap r).target ≠ (heap a).target := of_decide_eq_true ht
      rw [hothers r hne, proposals_snoc_of_ne hne]
      exact h.flagged r hr
    · rw [List.mem_singleton.mp hr]
      exact hflag
  once := by
    rw [hresolved]
    exact h.once_update

/-- The first proposal for its target. -/
theorem enter (h : Resolving heap past s) (ha : a ∉ past) (hflag : (heap a).conflictFlag = false)
    (hnone : s.seenTargets (heap a).target = none) :
    Resolving heap (past ++ [a]) (s.enter a) := by
  have htarget : (s.heap a).target = (heap a).target := (h.same a).target
  have hempty : proposals heap (heap a).target past = [] := (h.unseen _).mp hnone
  refine h.take h.same (fun r hr => ?_) (fun r _ => rfl) ?_ ?_ ?_ ?_
  · exact h.untouched r fun hp => hr (List.mem_append_left _ hp)
  · rw [← htarget]
    rfl
  · rw [List.filter_eq_self.mpr]
    · rfl
    · intro r hr
      refine decide_eq_true fun ht => ?_
      have hseen := (h.resolved r).mp hr
      rw [ht, hnone] at hseen
      cases hseen
  · rw [Stands, proposals_snoc_self, hempty]
    exact Latest.IsMax.singleton a
  · show (s.heap a).conflictFlag = true ↔ _
    rw [h.untouched a ha, hflag, proposals_snoc_self, hempty]
    exact iff_of_false Bool.false_ne_true (Nat.not_succ_le_self 1)

/-- With a rival there are two proposals. -/
theorem two_le (h : Resolving heap past s) {existing : Ref}
    (hseen : s.seenTargets (heap a).target = some existing) :
    2 ≤ (proposals heap (heap a).target (past ++ [a])).length := by
  have hpos := List.length_pos_of_mem (h.stands _ _ hseen).mem
  rw [proposals_snoc_self, List.length_append, List.length_singleton]
  omega

theorem target_of_seen (h : Resolving heap past s) {t : String} {existing : Ref}
    (hseen : s.seenTargets t = some existing) : existing ∈ past ∧ (heap existing).target = t :=
  mem_proposals.mp (h.stands _ _ hseen).mem

/-- The later proposal is at least as confident. -/
theorem displace (h : Resolving heap past s)
    (hnumbers : ∀ r ∈ past, (heap r).confidence.isNaN = false) {existing : Ref}
    (hseen : s.seenTargets (heap a).target = some existing)
    (hle : (heap existing).confidence ≤ (heap a).confidence) :
    Resolving heap (past ++ [a]) ((s.dispute existing a).displace existing a) := by
  obtain ⟨hpast, htarget⟩ := h.target_of_seen hseen
  have hdisputed : ∀ r, SameAction (heap r) ((s.dispute existing a).heap r) := fun r =>
    (h.same r).trans (sameAction_flag _ _ _ _)
  refine h.take (fun r => ?_) (fun r hr => ?_) (fun r hr => ?_) ?_ ?_ ?_ ?_
  · exact (hdisputed r).trans (sameAction_flag _ _ _ _)
  · have hrpast : r ∉ past := fun hp => hr (List.mem_append_left _ hp)
    have hra : r ≠ a := fun he => hr (List.mem_append_right _ (List.mem_singleton.mpr he))
    have hre : r ≠ existing := fun he => hrpast (he ▸ hpast)
    exact (Function.update_of_ne hra _ _).trans
      ((Function.update_of_ne hre _ _).trans (h.untouched r hrpast))
  · have hra : r ≠ a := fun he => hr (by rw [he])
    have hre : r ≠ existing := fun he => hr (by rw [he, htarget])
    exact (Function.update_of_ne hra _ _).trans (Function.update_of_ne hre _ _)
  · rw [← (hdisputed a).target]
    rfl
  · show (s.resolved.filter fun r => ((s.dispute existing a).heap r).target ≠
      ((s.dispute existing a).heap a).target) ++ [a] = _
    simp only [(hdisputed _).target]
  · rw [Stands, proposals_snoc_self]
    have hstands := h.stands _ _ hseen
    refine hstands.snoc_of_le FloatText.le_trans64 (fun r hr => ?_) hle
    exact FloatText.le_total64 (hnumbers existing hpast) (hnumbers r (mem_proposals.mp hr).1)
  · refine iff_of_true ?_ (h.two_le hseen)
    exact (conflictFlag_flag _ _ _ _).trans (by rw [decide_eq_true rfl, Bool.true_or])

/-- The later proposal is less confident. -/
theorem dispute (h : Resolving heap past s) {existing : Ref}
    (hseen : s.seenTargets (heap a).target = some existing)
    (hle : ¬ (heap existing).confidence ≤ (heap a).confidence) :
    Resolving heap (past ++ [a]) (s.dispute existing a) := by
  obtain ⟨hpast, htarget⟩ := h.target_of_seen hseen
  have hne : proposals heap (heap a).target past ≠ [] := fun he => by
    rw [(h.unseen _).mpr he] at hseen
    cases hseen
  refine ⟨fun r => ?_, fun r hr => ?_, fun t => ?_, fun t r ht => ?_, h.resolved, h.distinct,
    fun r hr => ?_, ?_⟩
  · exact (h.same r).trans (sameAction_flag _ _ _ _)
  · have hrpast : r ∉ past := fun hp => hr (List.mem_append_left _ hp)
    have hre : r ≠ existing := fun he => hrpast (he ▸ hpast)
    exact (Function.update_of_ne hre _ _).trans (h.untouched r hrpast)
  · by_cases ht : t = (heap a).target
    · subst ht
      rw [proposals_snoc_self]
      refine iff_of_false ?_
        (List.append_ne_nil_of_right_ne_nil _ (List.cons_ne_nil _ _))
      exact fun hnone => hne ((h.unseen _).mp hnone)
    · rw [proposals_snoc_of_ne ht]
      exact h.unseen t
  · by_cases hta : t = (heap a).target
    · subst hta
      obtain rfl := Option.some.inj (hseen.symm.trans ht)
      rw [Stands, proposals_snoc_self]
      exact (h.stands _ _ hseen).snoc_of_not_le hle
    · rw [Stands, proposals_snoc_of_ne hta]
      exact h.stands t r ht
  · have hflag : ((s.dispute existing a).heap r).conflictFlag =
        (decide (r = existing) || (s.heap r).conflictFlag) := conflictFlag_flag _ _ _ _
    rw [hflag]
    by_cases hta : (heap r).target = (heap a).target
    · rw [h.eq_of_target hseen hr hta, decide_eq_true rfl, Bool.true_or, htarget]
      exact iff_of_true rfl (h.two_le hseen)
    · have hre : r ≠ existing := fun he => hta (by rw [he, htarget])
      rw [decide_eq_false hre, Bool.false_or, proposals_snoc_of_ne hta]
      exact h.flagged r hr
  · show s.resolved.filter _ = _
    have hrival : ¬ Once heap (past ++ [a]) a := fun honce => by
      have htwo := h.two_le hseen
      rw [Once] at honce
      omega
    rw [List.filter_append, List.filter_cons_of_neg (by simpa using hrival), List.filter_nil,
      List.append_nil, filter_once_snoc fun r hr => hr,
      filter_once_snoc fun r hr => h.mem_past hr, h.once]

/-- The body of the loop. -/
theorem step (h : Resolving heap past s) (ha : a ∉ past)
    (hnumbers : ∀ r ∈ past, (heap r).confidence.isNaN = false)
    (hflag : (heap a).conflictFlag = false) : Resolving heap (past ++ [a]) (s.step a) := by
  unfold Resolution.step
  rw [(h.same a).target, (h.same a).confidence]
  cases hseen : s.seenTargets (heap a).target with
  | none => exact h.enter ha hflag hseen
  | some existing =>
      simp only [(h.same existing).confidence]
      split_ifs with hle
      · exact h.displace hnumbers hseen hle
      · exact h.dispute hseen hle

/-- All of the loop. -/
theorem run (h : Resolving heap past s) {actions : List Ref} (hdistinct : (past ++ actions).Nodup)
    (hnumbers : ∀ r ∈ past ++ actions, (heap r).confidence.isNaN = false)
    (hflags : ∀ r ∈ actions, (heap r).conflictFlag = false) :
    Resolving heap (past ++ actions) (actions.foldl Resolution.step s) := by
  induction actions generalizing past s with
  | nil =>
      rw [List.append_nil]
      exact h
  | cons a actions ih =>
      have hsplit : past ++ a :: actions = (past ++ [a]) ++ actions := by
        rw [List.append_assoc, List.singleton_append]
      have ha : a ∉ past := fun hp =>
        (List.nodup_append.mp hdistinct).2.2 a hp a List.mem_cons_self rfl
      rw [hsplit] at hdistinct hnumbers ⊢
      rw [List.foldl_cons]
      refine ih (h.step ha (fun r hr => ?_) (hflags a List.mem_cons_self)) hdistinct hnumbers
        fun r hr => hflags r (List.mem_cons_of_mem _ hr)
      exact hnumbers r (List.mem_append_left _ (List.mem_append_left _ hr))

end Resolving

end

/-! ## The list that comes back -/

/-- What `_resolve_conflicts` promises of its result for the actions: the targets are distinct,
for each target proposed one of its proposals stands, the latest of the greatest confidence,
those that stand are flagged exactly when they had a rival, and those without one come in the
order of the actions. -/
structure Resolved (heap : Heap) (actions : List Ref) (s : Resolution) : Prop where
  distinct : (s.resolved.map fun r => (s.heap r).target).Nodup
  stands : ∀ a ∈ actions, ∃ r ∈ s.resolved, Stands heap (heap a).target actions r ∧
    ∀ b ∈ actions, (heap b).target = (heap a).target → (heap b).confidence ≤ (heap r).confidence
  proposed : ∀ r ∈ s.resolved, r ∈ actions
  same : ∀ r, SameAction (heap r) (s.heap r)
  flagged : ∀ r ∈ s.resolved,
    (s.heap r).conflictFlag = true ↔ 2 ≤ (proposals heap (heap r).target actions).length
  once : s.resolved.filter (Once heap actions) = actions.filter (Once heap actions)

theorem resolveConflicts_resolved (heap : Heap) (actions : List Ref) (hdistinct : actions.Nodup)
    (hnumbers : ∀ r ∈ actions, (heap r).confidence.isNaN = false)
    (hflags : ∀ r ∈ actions, (heap r).conflictFlag = false) :
    Resolved heap actions (resolveConflicts heap actions) := by
  have h : Resolving heap actions (resolveConflicts heap actions) :=
    (Resolving.start heap).run hdistinct hnumbers hflags
  refine ⟨?_, fun a ha => ?_, fun r hr => h.mem_past hr, h.same, h.flagged, h.once⟩
  · simp only [(h.same _).target]
    exact h.distinct
  · have hmem : a ∈ proposals heap (heap a).target actions := mem_proposals.mpr ⟨ha, rfl⟩
    cases hseen : (resolveConflicts heap actions).seenTargets (heap a).target with
    | none => exact absurd ((h.unseen _).mp hseen) (List.ne_nil_of_mem hmem)
    | some r =>
        obtain ⟨hpast, htarget⟩ := h.target_of_seen hseen
        refine ⟨r, (h.resolved r).mpr (by rw [htarget, hseen]), h.stands _ _ hseen, ?_⟩
        intro b hb ht
        refine (h.stands _ _ hseen).greatest (fun c hc => ?_) (mem_proposals.mpr ⟨hb, ht⟩)
        exact FloatText.le_total64 (hnumbers r hpast) (hnumbers c (mem_proposals.mp hc).1)

/-! Two agents want to delete what a third one opens. -/

def proposal (action target agent : String) (confidence : Float) : ProposedAction where
  action := action
  target := target
  agent := agent
  confidence := confidence
  reversible := true
  halPreScore := 0
  parameters := []
  conflictFlag := false
  conflictNote := ""

def threeProposals : Heap
  | 0 => proposal "open" "notes.txt" "file" 0.8
  | 1 => proposal "open" "todo.txt" "file" 0.7
  | _ => proposal "delete" "notes.txt" "planner" 0.8

theorem resolveConflicts_resolved_three :
    Resolved threeProposals [0, 1, 2] (resolveConflicts threeProposals [0, 1, 2]) :=
  resolveConflicts_resolved threeProposals [0, 1, 2] (by decide) (by decide) (by decide)

example : (resolveConflicts threeProposals [0, 1, 2]).resolved = [1, 2] := by decide

end Agents

/-
# `Cognos.Hal.RecursionLimiter` — guards against recursion

`recursion_limiter.rs`: entering an evaluation counts the agent one level deeper and grants a
guard, and when the guard ends, the count goes down again.  A guard ends by being dropped, or by
`release`, which marks it released and drops it; `Drop` passes over a guard so marked.

    Balanced              what the counts have to be
    EndsByDrop            a call that does not release a guard
    counted_step          a call that does not, keeps the counts
    not_counted_release   one that does, breaks them
    guards_balanced_iff          the runs that are balanced throughout

Times are nanoseconds since the epoch.  Any number of guards may be held at a time, so the runs
here are those the exclusive borrow allows, those in which a guard is leaked, and more.
-/
import Mathlib
import Cognos.Lib.Run
import Cognos.Hal.AuthorityCompressor

namespace Hal.Recursion

abbrev AgentId := String

/-- Default maximum recursion depth. -/
def defaultMaxDepth : Nat := 8

/-- Default maximum number of entries permitted within the window. -/
def defaultWindowMaxEntries : Nat := 64

/-- Errors returned by the recursion limiter. -/
inductive RecursionError
  | maxDepthExceeded (agent : AgentId) (depth max : Nat)
  | rateLimited (agent : AgentId) (count windowSecs : Nat)
  | loopDetected (agent : AgentId)
deriving DecidableEq

/-- Per-agent recursion depth and rate limiter. -/
structure RecursionLimiter where
  depth : AList fun _ : AgentId => Nat
  maxDepth : Nat
  window : Nat
  recentEntries : AList fun _ : AgentId => List Int
  windowMaxEntries : Nat

/-- A granted guard.  Its reference to the limiter is the state it is dropped in. -/
structure RecursionGuard where
  agent : AgentId
  released : Bool

namespace RecursionLimiter

def withConfig (maxDepth window : Nat) : RecursionLimiter :=
  ⟨∅, maxDepth, window, ∅, defaultWindowMaxEntries⟩

/-- Current recursion depth for an agent, 0 if unknown. -/
def currentDepth (l : RecursionLimiter) (agent : AgentId) : Nat :=
  (l.depth.lookup agent).getD 0

/-- `as i64` of a `u64`. -/
def asI64 (n : Nat) : Int := (BitVec.ofNat 64 n).toInt

/-- The entries of an agent that are still in the window. -/
def recent (l : RecursionLimiter) (agent : AgentId) (now : Int) : List Int :=
  ((l.recentEntries.lookup agent).getD []).filter fun t =>
    decide (numSeconds (now - t) < asI64 (asSecs l.window))

/-- Attempt to enter evaluation. -/
def enter (l : RecursionLimiter) (agent : AgentId) (now : Int) :
    RecursionLimiter × Except RecursionError RecursionGuard :=
  if l.maxDepth ≤ l.currentDepth agent then
    (l, .error (.maxDepthExceeded agent (l.currentDepth agent) l.maxDepth))
  else
    let entries := l.recent agent now
    let count := entries.length % 2 ^ 32
    if l.windowMaxEntries ≤ count then
      ({ l with recentEntries := l.recentEntries.insert agent entries },
        .error (.rateLimited agent count (asSecs l.window)))
    else
      ({ l with
          recentEntries := l.recentEntries.insert agent (entries ++ [now])
          depth := l.depth.insert agent (l.currentDepth agent + 1) },
        .ok ⟨agent, false⟩)

end RecursionLimiter

namespace RecursionGuard

/-- The destructor. -/
def drop (g : RecursionGuard) (l : RecursionLimiter) : RecursionLimiter :=
  if g.released then l
  else
    match l.depth.lookup g.agent with
    | none => l
    | some entry =>
        if 0 < entry then { l with depth := l.depth.insert g.agent (entry - 1) } else l

/-- Explicitly release the guard early.  It is dropped at the end of the call. -/
def release (g : RecursionGuard) (l : RecursionLimiter) : RecursionLimiter :=
  { g with released := true }.drop l

end RecursionGuard

/-! ## Runs -/

/-- A limiter, and the guards that are granted and not yet ended. -/
structure Guarded where
  limiter : RecursionLimiter
  guards : List RecursionGuard

inductive Call
  | enter (agent : AgentId) (now : Int)
  | drop (i : Nat)
  | release (i : Nat)

/-- The `i`th guard ends in one way or the other. -/
def Guarded.finish (s : Guarded) (i : Nat)
    (f : RecursionGuard → RecursionLimiter → RecursionLimiter) : Guarded :=
  match s.guards[i]? with
  | none => s
  | some g => ⟨f g s.limiter, s.guards.eraseIdx i⟩

def Guarded.step (s : Guarded) : Call → Guarded
  | .enter agent now =>
      match s.limiter.enter agent now with
      | (l, .ok g) => ⟨l, s.guards ++ [g]⟩
      | (l, .error _) => ⟨l, s.guards⟩
  | .drop i => s.finish i RecursionGuard.drop
  | .release i => s.finish i RecursionGuard.release

def Guarded.start (maxDepth window : Nat) : Guarded :=
  ⟨RecursionLimiter.withConfig maxDepth window, []⟩

/-- How many guards of an agent are granted and not yet ended. -/
def Guarded.outstanding (s : Guarded) (agent : AgentId) : Nat :=
  s.guards.countP fun g => g.agent = agent

/-- What the counts have to be. -/
structure Balanced (s : Guarded) : Prop where
  depth_eq : ∀ agent, s.limiter.currentDepth agent = s.outstanding agent
  depth_le : ∀ agent, s.limiter.currentDepth agent ≤ s.limiter.maxDepth
  not_refused : s.guards = [] → ∀ agent now depth max,
    (s.limiter.enter agent now).2 ≠ .error (.maxDepthExceeded agent depth max)

/-- The call does not release a guard that is held. -/
def EndsByDrop (s : Guarded) : Call → Prop
  | .release i => s.guards.length ≤ i
  | _ => True

/-! ## What a call does to the depths -/

namespace RecursionLimiter

variable (l : RecursionLimiter) (agent : AgentId) (now : Int)

theorem currentDepth_insert (d : Nat) (a : AgentId) :
    ((l.depth.insert agent d).lookup a).getD 0 = if a = agent then d else l.currentDepth a := by
  split
  · next heq => rw [heq, AList.lookup_insert, Option.getD_some]
  · next hne => rw [AList.lookup_insert_ne hne, currentDepth]

/-- Entering grants a guard one level deeper, or refuses and leaves the depths. -/
theorem enter_cases :
    ((l.enter agent now).2 = .ok ⟨agent, false⟩ ∧ l.currentDepth agent < l.maxDepth ∧
      (l.enter agent now).1.maxDepth = l.maxDepth ∧
      ∀ a, (l.enter agent now).1.currentDepth a =
        if a = agent then l.currentDepth agent + 1 else l.currentDepth a) ∨
    ((∃ e, (l.enter agent now).2 = .error e) ∧ (l.enter agent now).1.depth = l.depth ∧
      (l.enter agent now).1.maxDepth = l.maxDepth) := by
  unfold enter
  split
  · exact Or.inr ⟨⟨_, rfl⟩, rfl, rfl⟩
  · next hdepth =>
      dsimp only
      split
      · exact Or.inr ⟨⟨_, rfl⟩, rfl, rfl⟩
      · refine Or.inl ⟨rfl, Nat.lt_of_not_le hdepth, rfl, fun a => ?_⟩
        exact l.currentDepth_insert agent _ a

/-- An agent is refused for its depth only at the cap. -/
theorem maxDepth_le_of_refused {depth max : Nat}
    (h : (l.enter agent now).2 = .error (.maxDepthExceeded agent depth max)) :
    l.maxDepth ≤ l.currentDepth agent := by
  unfold enter at h
  split at h
  · assumption
  · dsimp only at h
    split at h
    · injection h with h
      cases h
    · cases h

theorem enter_of_maxDepth_le (h : l.maxDepth ≤ l.currentDepth agent) :
    (l.enter agent now).2 =
      .error (.maxDepthExceeded agent (l.currentDepth agent) l.maxDepth) := by
  rw [enter, if_pos h]

end RecursionLimiter

namespace RecursionGuard

@[simp] theorem maxDepth_drop (g : RecursionGuard) (l : RecursionLimiter) :
    (g.drop l).maxDepth = l.maxDepth := by
  unfold drop
  split
  · rfl
  · split
    · rfl
    · split <;> rfl

/-- A guard that is not released takes its agent one level up. -/
theorem currentDepth_drop {g : RecursionGuard} (hg : g.released = false) (l : RecursionLimiter)
    (a : AgentId) :
    (g.drop l).currentDepth a =
      if a = g.agent then l.currentDepth g.agent - 1 else l.currentDepth a := by
  have hself : ∀ d, l.currentDepth g.agent = d → d = 0 →
      l.currentDepth a = if a = g.agent then d - 1 else l.currentDepth a := by
    intro d hd h0
    split
    · next heq => rw [heq, hd, h0]
    · rfl
  unfold drop
  rw [if_neg (by simp [hg])]
  split
  · next hnone =>
      exact hself _ rfl (by rw [RecursionLimiter.currentDepth, hnone, Option.getD_none])
  · next entry hsome =>
      have hentry : l.currentDepth g.agent = entry := by
        rw [RecursionLimiter.currentDepth, hsome, Option.getD_some]
      split
      · rw [hentry]
        exact l.currentDepth_insert g.agent _ a
      · next hzero => exact hself _ rfl (by omega)

/-- The destructor passes over a released guard. -/
@[simp] theorem release_eq (g : RecursionGuard) (l : RecursionLimiter) : g.release l = l :=
  rfl

end RecursionGuard

namespace Guarded

@[simp] theorem outstanding_append (l : RecursionLimiter) (gs : List RecursionGuard)
    (g : RecursionGuard) (a : AgentId) :
    (Guarded.mk l (gs ++ [g])).outstanding a =
      (Guarded.mk l gs).outstanding a + if g.agent = a then 1 else 0 := by
  simp only [outstanding, List.countP_append, List.countP_singleton, decide_eq_true_eq]

/-- An ended guard is one the less of its agent. -/
theorem outstanding_eraseIdx (s : Guarded) (l : RecursionLimiter) {i : Nat} {g : RecursionGuard}
    (hg : s.guards[i]? = some g) (a : AgentId) :
    s.outstanding a =
      (Guarded.mk l (s.guards.eraseIdx i)).outstanding a + if g.agent = a then 1 else 0 := by
  obtain ⟨hi, rfl⟩ := List.getElem?_eq_some_iff.mp hg
  have hperm := (List.getElem_cons_eraseIdx_perm hi).countP_eq fun h => decide (h.agent = a)
  rw [List.countP_cons] at hperm
  simp only [decide_eq_true_eq] at hperm
  exact hperm.symm

end Guarded

/-! ## Which runs are balanced -/

/-- What the calls keep: the counts are those of the guards held, none of which is released. -/
structure Counted (s : Guarded) : Prop where
  cap_pos : 0 < s.limiter.maxDepth
  depth_eq : ∀ agent, s.limiter.currentDepth agent = s.outstanding agent
  depth_le : ∀ agent, s.limiter.currentDepth agent ≤ s.limiter.maxDepth
  unreleased : ∀ g ∈ s.guards, g.released = false

theorem Counted.balanced {s : Guarded} (h : Counted s) : Balanced s where
  depth_eq := h.depth_eq
  depth_le := h.depth_le
  not_refused := by
    intro hempty agent now depth max hrefused
    have hcap := s.limiter.maxDepth_le_of_refused agent now hrefused
    have hzero : s.outstanding agent = 0 := by rw [Guarded.outstanding, hempty, List.countP_nil]
    rw [h.depth_eq, hzero] at hcap
    exact absurd h.cap_pos (by omega)

theorem counted_start {maxDepth : Nat} (h : maxDepth ≠ 0) (window : Nat) :
    Counted (Guarded.start maxDepth window) where
  cap_pos := Nat.pos_of_ne_zero h
  depth_eq := fun _ => rfl
  depth_le := fun _ => Nat.zero_le _
  unreleased := fun _ hg => absurd hg List.not_mem_nil

theorem counted_enter {s : Guarded} (h : Counted s) (agent : AgentId) (now : Int) :
    Counted (s.step (.enter agent now)) := by
  rw [Guarded.step]
  rcases s.limiter.enter_cases agent now with ⟨hok, hlt, hmax, hdepth⟩ | ⟨⟨e, herr⟩, hdepth, hmax⟩
  · rw [← Prod.eta (s.limiter.enter agent now), hok]
    dsimp only
    refine ⟨hmax ▸ h.cap_pos, fun a => ?_, fun a => ?_, fun g hg => ?_⟩
    · have hout : (Guarded.mk (s.limiter.enter agent now).1 s.guards).outstanding a =
          s.outstanding a := rfl
      rw [Guarded.outstanding_append, hdepth, hout]
      by_cases heq : a = agent
      · rw [if_pos heq, if_pos heq.symm, heq, h.depth_eq]
      · rw [if_neg heq, if_neg (Ne.symm heq), h.depth_eq, Nat.add_zero]
    · rw [hdepth, hmax]
      split
      · exact hlt
      · exact h.depth_le a
    · rcases List.mem_append.mp hg with hg | hg
      · exact h.unreleased g hg
      · rw [List.mem_singleton.mp hg]
  · rw [← Prod.eta (s.limiter.enter agent now), herr]
    dsimp only
    have hcur : ∀ a, (s.limiter.enter agent now).1.currentDepth a = s.limiter.currentDepth a := by
      intro a
      rw [RecursionLimiter.currentDepth, hdepth, RecursionLimiter.currentDepth]
    refine ⟨hmax ▸ h.cap_pos, fun a => ?_, fun a => ?_, h.unreleased⟩
    · exact (hcur a).trans (h.depth_eq a)
    · rw [hcur, hmax]
      exact h.depth_le a

theorem counted_drop {s : Guarded} (h : Counted s) (i : Nat) : Counted (s.step (.drop i)) := by
  rw [Guarded.step, Guarded.finish]
  split
  · exact h
  · next g hg =>
      have hmem : g ∈ s.guards := List.mem_of_getElem? hg
      have hdepth := RecursionGuard.currentDepth_drop (h.unreleased g hmem) s.limiter
      refine ⟨?_, fun a => ?_, fun a => ?_, fun g' hg' => ?_⟩
      · rw [RecursionGuard.maxDepth_drop]
        exact h.cap_pos
      · have hout := s.outstanding_eraseIdx (g.drop s.limiter) hg a
        rw [hdepth]
        by_cases heq : a = g.agent
        · rw [if_pos heq.symm] at hout
          rw [if_pos heq, ← heq, h.depth_eq, hout, Nat.add_sub_cancel]
        · rw [if_neg (Ne.symm heq)] at hout
          rw [if_neg heq, h.depth_eq, hout, Nat.add_zero]
      · rw [hdepth, RecursionGuard.maxDepth_drop]
        split
        · exact (Nat.sub_le _ _).trans (h.depth_le _)
        · exact h.depth_le a
      · exact h.unreleased g' (List.mem_of_mem_eraseIdx hg')

theorem counted_step {s : Guarded} {c : Call} (h : Counted s) (hc : EndsByDrop s c) :
    Counted (s.step c) := by
  cases c with
  | enter agent now => exact counted_enter h agent now
  | drop i => exact counted_drop h i
  | release i =>
      have hnone : s.guards[i]? = none := List.getElem?_eq_none hc
      rw [Guarded.step, Guarded.finish, hnone]
      exact h

/-- A released guard stays in its agent's count. -/
theorem not_balanced_release {s : Guarded} (h : Counted s) {i : Nat} (hi : i < s.guards.length) :
    ¬ Balanced (s.step (.release i)) := by
  intro hbal
  have hg := List.getElem?_eq_getElem hi
  have hstep : s.step (.release i) = ⟨s.limiter, s.guards.eraseIdx i⟩ := by
    rw [Guarded.step, Guarded.finish, hg]
    dsimp only
    rw [RecursionGuard.release_eq]
  have hout := s.outstanding_eraseIdx s.limiter hg s.guards[i].agent
  have hafter := hbal.depth_eq s.guards[i].agent
  rw [hstep] at hafter
  dsimp only at hafter
  rw [h.depth_eq, hout, if_pos rfl] at hafter
  omega

theorem balanced_step_iff {s : Guarded} (c : Call) (h : Counted s) :
    Balanced (s.step c) ↔ EndsByDrop s c := by
  constructor
  · intro hbal
    cases c with
    | enter agent now => trivial
    | drop i => trivial
    | release i =>
        by_contra hlt
        exact not_balanced_release h (Nat.lt_of_not_le hlt) hbal
  · intro hc
    exact (counted_step h hc).balanced

/-- With a cap of 0 the first call is refused. -/
theorem not_balanced_zero (window : Nat) : ¬ Balanced (Guarded.start 0 window) := by
  intro h
  exact h.not_refused rfl "" 0 0 0
    (RecursionLimiter.enter_of_maxDepth_le _ "" 0 (Nat.zero_le _))

theorem balanced_iff_of_cap {maxDepth : Nat} (hcap : maxDepth ≠ 0) (window : Nat)
    (calls : List Call) :
    Run.Throughout Guarded.step Balanced (Guarded.start maxDepth window) calls ↔
      Run.Along Guarded.step EndsByDrop (Guarded.start maxDepth window) calls := by
  refine Run.throughout_iff_along Guarded.step (I := Counted) ?_ ?_ ?_ (counted_start hcap window)
  · intro s h
    exact h.balanced
  · intro s c h
    exact balanced_step_iff c h
  · intro s c h hc
    exact counted_step h hc

/-- The runs that are balanced throughout: there is a level to enter, and every guard ends by
being dropped. -/
theorem guards_balanced_iff (maxDepth window : Nat) (calls : List Call) :
    Run.Throughout Guarded.step Balanced (Guarded.start maxDepth window) calls ↔
      maxDepth ≠ 0 ∧ Run.Along Guarded.step EndsByDrop (Guarded.start maxDepth window) calls := by
  constructor
  · intro h
    have hcap : maxDepth ≠ 0 := by
      rintro rfl
      exact not_balanced_zero window (h [] List.nil_prefix)
    exact ⟨hcap, (balanced_iff_of_cap hcap window calls).mp h⟩
  · rintro ⟨hcap, h⟩
    exact (balanced_iff_of_cap hcap window calls).mpr h

/-- A guard entered and released: none is held, and the agent stays one level deep. -/
theorem released_guard_kept_in_count :
    ¬ Run.Throughout Guarded.step Balanced (Guarded.start defaultMaxDepth 1000000000)
      [.enter "a" 0, .release 0] := by
  intro h
  have hafter := (h _ (List.prefix_refl _)).depth_eq "a"
  revert hafter
  decide +kernel

end Hal.Recursion

/-
# `Cognos.Hal.ReputationEngine` — reputation and its decay

`reputation_engine.rs` in exact arithmetic, over any ordered field: an outcome moves an agent's
score and dates it, and a sweep takes each score back toward the neutral one, by five percent of
its distance for each hour since that date.  The hours of one sweep are added up, those of two
are compounded; and an outcome dates a score without the decay that is due.

    decay_score_eq_iff        when nothing is due
    sweep_unseen_iff          when a later sweep does not tell whether there was one before
    timely_iff                the runs whose steps all lose nothing and are not told
    bounded_throughout        scores are between zero and one
    scoreAt_eq_of_timely      after a timely run, the score that the outcomes alone give
    sweeps_agree_of_timely    so two of them with the same outcomes agree

Times are nanoseconds since the epoch; the decay counts whole seconds.
-/
import Mathlib
import Cognos.Lib.Run
import Cognos.Lib.UnitClamp
import Cognos.Hal.AuthorityCompressor

namespace Hal.Reputations

abbrev AgentId := String

/-- The outcome of a gated action. -/
inductive ActionOutcome
  | approved | rejected | autoSucceeded | autoFailed | userOverrode
deriving DecidableEq

/-- Per-agent reputation record. -/
structure Reputation (K : Type) where
  score : K
  decisionsObserved : Nat
  escalations : Nat
  lastUpdated : Int

/-- The reputation table. -/
structure ReputationEngine (K : Type) where
  scores : AgentId → Option (Reputation K)

variable {K : Type} [Field K] [LinearOrder K]

namespace ActionOutcome

/-- Reputation delta for this outcome. -/
def delta : ActionOutcome → K
  | approved => 0.02
  | rejected => -0.05
  | autoSucceeded => 0.01
  | autoFailed => -0.10
  | userOverrode => -0.15

def isEscalation : ActionOutcome → Bool
  | autoFailed | userOverrode => true
  | _ => false

end ActionOutcome

namespace Reputation

/-- `Reputation::default()`. -/
def default (now : Int) : Reputation K := ⟨0.5, 0, 0, now⟩

/-- Apply an outcome. -/
def apply (r : Reputation K) (outcome : ActionOutcome) (now : Int) : Reputation K where
  score := unitClamp (r.score + outcome.delta)
  decisionsObserved := r.decisionsObserved + 1
  escalations := if outcome.isEscalation then r.escalations + 1 else r.escalations
  lastUpdated := now

/-- Apply time-based decay toward neutral. -/
def decay (r : Reputation K) (now : Int) : Reputation K :=
  let elapsedHours : K := (numSeconds (now - r.lastUpdated) : K) / 3600
  if elapsedHours ≤ 0 then r
  else
    let decay : K := 0.05 * elapsedHours
    let neutral : K := 0.5
    { r with score := r.score + (neutral - r.score) * min decay 1, lastUpdated := now }

end Reputation

namespace ReputationEngine

def new : ReputationEngine K := ⟨fun _ => none⟩

/-- Record an action outcome for an agent. -/
def update (e : ReputationEngine K) (agent : AgentId) (outcome : ActionOutcome) (now : Int) :
    ReputationEngine K :=
  ⟨Function.update e.scores agent
    (some (((e.scores agent).getD (.default now)).apply outcome now))⟩

/-- The current score of an agent, neutral for unknown agents. -/
def reputationOf (e : ReputationEngine K) (agent : AgentId) : K :=
  ((e.scores agent).map Reputation.score).getD 0.5

/-- Apply time-based decay to all agents. -/
def decayAll (e : ReputationEngine K) (now : Int) : ReputationEngine K :=
  ⟨fun agent => (e.scores agent).map fun r => r.decay now⟩

end ReputationEngine

/-! ## Runs -/

inductive Event
  | update (agent : AgentId) (outcome : ActionOutcome) (now : Int)
  | decayAll (now : Int)
deriving DecidableEq

namespace Event

def time : Event → Int
  | update _ _ now => now
  | decayAll now => now

def isUpdate : Event → Bool
  | update .. => true
  | decayAll _ => false

end Event

/-- The outcomes of a run. -/
def outcomes (events : List Event) : List Event := events.filter Event.isUpdate

/-- The events come in the order of their times. -/
def Ordered (events : List Event) : Prop := events.Pairwise fun a b => a.time ≤ b.time

instance (events : List Event) : Decidable (Ordered events) :=
  inferInstanceAs (Decidable (events.Pairwise _))

def step (e : ReputationEngine K) : Event → ReputationEngine K
  | .update agent outcome now => e.update agent outcome now
  | .decayAll now => e.decayAll now

/-- An outcome finds no decay that is due. -/
def DiscardsNothing (e : ReputationEngine K) : Event → Prop
  | .update agent _ now => ∀ r, e.scores agent = some r → (r.decay now).score = r.score
  | .decayAll _ => True

/-- No later sweep tells whether there was this one. -/
def SweepUnseen (e : ReputationEngine K) : Event → Prop
  | .update .. => True
  | .decayAll now => ∀ agent r, e.scores agent = some r →
      ∀ later, now ≤ later → ((r.decay now).decay later).score = (r.decay later).score

/-- All scores are between zero and one. -/
def Bounded (e : ReputationEngine K) : Prop :=
  ∀ agent, 0 ≤ e.reputationOf agent ∧ e.reputationOf agent ≤ 1

/-- The score is neutral, or no whole second has passed since its date. -/
def Reputation.Settled (r : Reputation K) (now : Int) : Prop :=
  r.score = 0.5 ∨ numSeconds (now - r.lastUpdated) ≤ 0

/-- Outcomes find settled scores, and so do sweeps, or scores of twenty hours before. -/
def Timely (e : ReputationEngine K) : Event → Prop
  | .update agent _ now => ∀ r, e.scores agent = some r → r.Settled now
  | .decayAll now => ∀ agent r, e.scores agent = some r →
      r.Settled now ∨ 72000 ≤ numSeconds (now - r.lastUpdated)

section

variable (e : ReputationEngine K)

@[simp] theorem scores_update_self (agent : AgentId) (outcome : ActionOutcome) (now : Int) :
    (step e (.update agent outcome now)).scores agent =
      some (((e.scores agent).getD (.default now)).apply outcome now) :=
  Function.update_self ..

theorem scores_update_of_ne {agent agent' : AgentId} (h : agent ≠ agent')
    (outcome : ActionOutcome) (now : Int) :
    (step e (.update agent' outcome now)).scores agent = e.scores agent :=
  Function.update_of_ne h ..

@[simp] theorem scores_decayAll (now : Int) (agent : AgentId) :
    (step e (.decayAll now)).scores agent = (e.scores agent).map fun r => r.decay now :=
  rfl

end

/-! ## One score -/

theorem numSeconds_mono {a b : Int} (h : a ≤ b) : numSeconds a ≤ numSeconds b :=
  Int.tdiv_le_tdiv (by norm_num) h

theorem numSeconds_add_second {a : Int} (h : 0 < numSeconds a) :
    numSeconds (a + 1000000000) = numSeconds a + 1 := by
  have hpos : 0 < a := by
    by_contra hneg
    exact absurd (numSeconds_mono (Int.not_lt.mp hneg)) (Int.not_le.mpr h)
  rw [numSeconds, numSeconds, Int.tdiv_eq_ediv_of_nonneg hpos.le,
    Int.tdiv_eq_ediv_of_nonneg (by omega)]
  omega

/-- The part of the distance to the neutral score that a sweep after so many seconds takes. -/
def taken (seconds : Int) : K := min (0.05 * ((seconds : K) / 3600)) 1

theorem taken_le_one (seconds : Int) : (taken seconds : K) ≤ 1 := min_le_right _ _

variable [IsStrictOrderedRing K]

theorem taken_of_lt {seconds : Int} (h : seconds ≤ 72000) :
    (taken seconds : K) = (seconds : K) / 72000 := by
  have hle : (seconds : K) ≤ 72000 := by exact_mod_cast h
  rw [taken, min_eq_left]
  · ring
  · linarith

theorem taken_of_le {seconds : Int} (h : 72000 ≤ seconds) : (taken seconds : K) = 1 := by
  have hle : (72000 : K) ≤ (seconds : K) := by exact_mod_cast h
  rw [taken, min_eq_right]
  linarith

theorem taken_pos {seconds : Int} (h : 0 < seconds) : 0 < (taken seconds : K) := by
  have hpos : (0 : K) < (seconds : K) := by exact_mod_cast h
  rw [taken, lt_min_iff]
  exact ⟨by positivity, one_pos⟩

namespace Reputation

variable (r : Reputation K) (now : Int)

theorem decay_of_nonpos (h : numSeconds (now - r.lastUpdated) ≤ 0) : r.decay now = r := by
  have hle : (numSeconds (now - r.lastUpdated) : K) ≤ 0 := by exact_mod_cast h
  rw [decay]
  dsimp only
  rw [if_pos (by linarith)]

theorem decay_of_pos (h : 0 < numSeconds (now - r.lastUpdated)) :
    r.decay now = { r with
      score := r.score + (0.5 - r.score) * taken (numSeconds (now - r.lastUpdated))
      lastUpdated := now } := by
  have hlt : (0 : K) < (numSeconds (now - r.lastUpdated) : K) := by exact_mod_cast h
  rw [decay]
  dsimp only
  rw [if_neg (not_le.mpr (by positivity))]
  rfl

/-- A sweep of a second or more takes its part of the distance. -/
theorem decay_score_of_pos (h : 0 < numSeconds (now - r.lastUpdated)) :
    (r.decay now).score - 0.5 =
      (r.score - 0.5) * (1 - taken (numSeconds (now - r.lastUpdated))) := by
  rw [decay_of_pos r now h]
  ring

/-- A sweep dates the score anew, or leaves its date. -/
theorem lastUpdated_decay :
    (r.decay now).lastUpdated = r.lastUpdated ∨ (r.decay now).lastUpdated = now := by
  rcases le_or_gt (numSeconds (now - r.lastUpdated)) 0 with hle | hlt
  · rw [decay_of_nonpos r now hle]
    exact Or.inl rfl
  · rw [decay_of_pos r now hlt]
    exact Or.inr rfl

/-- A neutral score stays so. -/
theorem decay_score_of_neutral (h : r.score = 0.5) : (r.decay now).score = 0.5 := by
  rcases le_or_gt (numSeconds (now - r.lastUpdated)) 0 with hle | hlt
  · rw [decay_of_nonpos r now hle, h]
  · rw [← sub_eq_zero, decay_score_of_pos r now hlt, h, sub_self, zero_mul]

/-- After twenty hours a score is neutral. -/
theorem decay_score_of_late (h : 72000 ≤ numSeconds (now - r.lastUpdated)) :
    (r.decay now).score = 0.5 := by
  rw [← sub_eq_zero, decay_score_of_pos r now (by omega), taken_of_le h, sub_self, mul_zero]

/-- Nothing is due exactly when the score is settled. -/
theorem decay_score_eq_iff : (r.decay now).score = r.score ↔ r.Settled now := by
  constructor
  · intro h
    rcases le_or_gt (numSeconds (now - r.lastUpdated)) 0 with hle | hlt
    · exact Or.inr hle
    · left
      have hmove := decay_score_of_pos r now hlt
      rw [h] at hmove
      have hzero : (r.score - 0.5) * taken (numSeconds (now - r.lastUpdated)) = 0 := by
        linear_combination hmove
      rcases mul_eq_zero.mp hzero with hscore | htaken
      · exact sub_eq_zero.mp hscore
      · exact absurd htaken (taken_pos hlt).ne'
  · rintro (hneutral | hle)
    · rw [decay_score_of_neutral r now hneutral, hneutral]
    · rw [decay_of_nonpos r now hle]

/-- Within twenty hours, the sweep a second later tells whether there was one. -/
theorem sweep_seen (hpos : 0 < numSeconds (now - r.lastUpdated))
    (hlt : numSeconds (now - r.lastUpdated) < 72000) (hscore : r.score ≠ 0.5) :
    ((r.decay now).decay (now + 1000000000)).score ≠ (r.decay (now + 1000000000)).score := by
  intro heq
  have hlate : numSeconds (now + 1000000000 - r.lastUpdated) =
      numSeconds (now - r.lastUpdated) + 1 := by
    rw [← numSeconds_add_second hpos]
    congr 1
    ring
  have hsecond : numSeconds (now + 1000000000 - now) = 1 := by
    rw [add_sub_cancel_left]
    rfl
  have hone := decay_score_of_pos r (now + 1000000000) (by omega)
  have hfirst := decay_score_of_pos r now hpos
  have hlast : (r.decay now).lastUpdated = now := by rw [decay_of_pos r now hpos]
  have htwo := decay_score_of_pos (r.decay now) (now + 1000000000) (by rw [hlast]; omega)
  rw [hlast, hsecond, hfirst, heq, hone, hlate, taken_of_lt (by omega), taken_of_lt (by omega),
    taken_of_lt (by omega)] at htwo
  have hseconds : (0 : K) < (numSeconds (now - r.lastUpdated) : K) := by exact_mod_cast hpos
  have hprod : (r.score - 0.5) * (numSeconds (now - r.lastUpdated) : K) = 0 := by
    push_cast at htwo
    linear_combination -72000 * 72000 * htwo
  rcases mul_eq_zero.mp hprod with h | h
  · exact hscore (sub_eq_zero.mp h)
  · exact hseconds.ne' h

/-- No later sweep tells whether there was one now, exactly when it finds the score settled, or
of twenty hours before. -/
theorem sweep_unseen_iff :
    (∀ later, now ≤ later → ((r.decay now).decay later).score = (r.decay later).score) ↔
      r.Settled now ∨ 72000 ≤ numSeconds (now - r.lastUpdated) := by
  constructor
  · intro h
    by_contra hnot
    rw [not_or, Settled, not_or] at hnot
    obtain ⟨⟨hscore, hpos⟩, hlt⟩ := hnot
    exact sweep_seen r now (Int.not_le.mp hpos) (Int.not_le.mp hlt) hscore (h _ (by omega))
  · rintro ((hneutral | hle) | hlate) later hlater
    · rw [decay_score_of_neutral r later hneutral]
      exact decay_score_of_neutral _ later (decay_score_of_neutral r now hneutral)
    · rw [decay_of_nonpos r now hle]
    · rw [decay_score_of_late r later (hlate.trans (numSeconds_mono (by omega)))]
      exact decay_score_of_neutral _ later (decay_score_of_late r now hlate)

end Reputation

/-! ## Runs that lose nothing -/

/-- A step loses nothing and is not told from later sweeps exactly when it is timely. -/
theorem step_timely_iff (e : ReputationEngine K) (event : Event) :
    DiscardsNothing e event ∧ SweepUnseen e event ↔ Timely e event := by
  cases event with
  | update agent outcome now =>
      simp only [DiscardsNothing, SweepUnseen, Timely, and_true]
      exact forall₂_congr fun r _ => r.decay_score_eq_iff now
  | decayAll now =>
      simp only [DiscardsNothing, SweepUnseen, Timely, true_and]
      exact forall₃_congr fun _ r _ => r.sweep_unseen_iff now

/-- The same of the steps of a run. -/
theorem timely_iff (e : ReputationEngine K) (events : List Event) :
    Run.Along step (fun e event => DiscardsNothing e event ∧ SweepUnseen e event) e events ↔
      Run.Along step Timely e events := by
  constructor
  · exact Run.Along.mono step fun e event => (step_timely_iff e event).mp
  · exact Run.Along.mono step fun e event => (step_timely_iff e event).mpr

/-! ## Scores are between zero and one -/

theorem Reputation.decay_mem {r : Reputation K} (h : 0 ≤ r.score ∧ r.score ≤ 1) (now : Int) :
    0 ≤ (r.decay now).score ∧ (r.decay now).score ≤ 1 := by
  rcases le_or_gt (numSeconds (now - r.lastUpdated)) 0 with hle | hlt
  · rw [r.decay_of_nonpos now hle]
    exact h
  · have hpos : 0 < (taken (numSeconds (now - r.lastUpdated)) : K) := taken_pos hlt
    have hone : (taken (numSeconds (now - r.lastUpdated)) : K) ≤ 1 := taken_le_one _
    have hdist : |r.score - 0.5| ≤ 0.5 := abs_le.mpr ⟨by linarith, by linarith⟩
    have hpart : |1 - taken (numSeconds (now - r.lastUpdated))| ≤ (1 : K) :=
      abs_le.mpr ⟨by linarith, by linarith⟩
    have hafter : |(r.decay now).score - 0.5| ≤ 0.5 := by
      calc |(r.decay now).score - 0.5|
          = |r.score - 0.5| * |1 - taken (numSeconds (now - r.lastUpdated))| := by
            rw [r.decay_score_of_pos now hlt, abs_mul]
        _ ≤ 0.5 * 1 := mul_le_mul hdist hpart (abs_nonneg _) (by norm_num)
        _ = 0.5 := mul_one _
    obtain ⟨hlow, hhigh⟩ := abs_le.mp hafter
    exact ⟨by linarith, by linarith⟩

theorem bounded_step (e : ReputationEngine K) (event : Event) (h : Bounded e) :
    Bounded (step e event) := by
  intro agent
  have hagent := h agent
  rw [ReputationEngine.reputationOf] at hagent ⊢
  cases event with
  | update agent' outcome now =>
      rcases eq_or_ne agent agent' with rfl | hne
      · rw [scores_update_self]
        exact unitClamp_mem _
      · rw [scores_update_of_ne e hne]
        exact hagent
  | decayAll now =>
      rw [scores_decayAll]
      cases hrecord : e.scores agent with
      | none =>
          rw [hrecord] at hagent
          exact hagent
      | some r =>
          rw [hrecord] at hagent
          exact Reputation.decay_mem hagent now

theorem bounded_throughout (events : List Event) :
    Run.Throughout step Bounded (ReputationEngine.new : ReputationEngine K) events := by
  intro past _
  refine Run.invariant_of_step step bounded_step (fun agent => ?_) past
  show (0 : K) ≤ 0.5 ∧ (0.5 : K) ≤ 1
  norm_num

/-! ## What the outcomes alone give -/

/-- A score at a later time: the one an outcome gave, until a second has passed, and then the
neutral one. -/
def settledScore : Option (K × Int) → Int → K
  | none, _ => 0.5
  | some (score, date), now => if numSeconds (now - date) ≤ 0 then score else 0.5

/-- The score an agent's last outcome gave, and its date. -/
def account (agent : AgentId) (last : Option (K × Int)) : Event → Option (K × Int)
  | .update agent' outcome now =>
      if agent = agent' then some (unitClamp (settledScore last now + outcome.delta), now) else last
  | .decayAll _ => last

/-- An agent's score, from the outcomes alone. -/
def scoreAt (agent : AgentId) (events : List Event) (now : Int) : K :=
  settledScore ((outcomes events).foldl (account agent) none) now

omit [IsStrictOrderedRing K] in
theorem account_outcomes (agent : AgentId) (events : List Event) :
    (outcomes events).foldl (account agent) none =
      events.foldl (account agent) (none : Option (K × Int)) := by
  rw [outcomes, List.foldl_filter]
  congr 1
  funext last event
  cases event with
  | update agent' outcome now => rfl
  | decayAll now => rfl

/-- The record follows the last outcome: it is as that left it, or it was swept to neutral. -/
structure Follows (r : Reputation K) (score : K) (date : Int) (rest : List Event) : Prop where
  date_le : ∀ event ∈ rest, r.lastUpdated ≤ event.time
  kept_or_neutral : (r.score = score ∧ r.lastUpdated = date) ∨
    (r.score = 0.5 ∧ (score = 0.5 ∨ 72000 ≤ numSeconds (r.lastUpdated - date)))

section

variable {r : Reputation K} {score : K} {date now : Int} {rest : List Event}

theorem Follows.date_le_decay (h : Follows r score date (.decayAll now :: rest))
    (hnow : ∀ event ∈ rest, now ≤ event.time) :
    ∀ event ∈ rest, (r.decay now).lastUpdated ≤ event.time := by
  rcases r.lastUpdated_decay now with hkept | hswept
  · rw [hkept]
    exact fun event hevent => h.date_le _ (List.mem_cons_of_mem _ hevent)
  · rw [hswept]
    exact hnow

/-- A neutral score stays so, and is the settled one. -/
theorem Follows.decay_neutral (h : Follows r score date (.decayAll now :: rest))
    (hnow : ∀ event ∈ rest, now ≤ event.time) (hscore : r.score = 0.5)
    (hold : score = 0.5 ∨ 72000 ≤ numSeconds (r.lastUpdated - date)) :
    Follows (r.decay now) score date rest ∧
      (r.decay now).score = settledScore (some (score, date)) now := by
  have hle : r.lastUpdated ≤ now := h.date_le _ List.mem_cons_self
  have hafter := r.decay_score_of_neutral now hscore
  have hlater : numSeconds (r.lastUpdated - date) ≤
      numSeconds ((r.decay now).lastUpdated - date) := by
    rcases r.lastUpdated_decay now with hkept | hswept
    · rw [hkept]
    · rw [hswept]
      exact numSeconds_mono (by omega)
  refine ⟨⟨h.date_le_decay hnow, Or.inr ⟨hafter, hold.imp_right hlater.trans'⟩⟩, ?_⟩
  rw [hafter, settledScore]
  rcases hold with rfl | hold
  · rw [ite_self]
  · have hsweep := numSeconds_mono (show r.lastUpdated - date ≤ now - date by omega)
    rw [if_neg (by omega)]

/-- A sweep that is timely finds the settled score, and leaves the record following. -/
theorem Follows.decay (h : Follows r score date (.decayAll now :: rest))
    (hnow : ∀ event ∈ rest, now ≤ event.time)
    (htimely : r.Settled now ∨ 72000 ≤ numSeconds (now - r.lastUpdated)) :
    Follows (r.decay now) score date rest ∧
      (r.decay now).score = settledScore (some (score, date)) now := by
  rcases h.kept_or_neutral with ⟨rfl, rfl⟩ | ⟨hscore, hold⟩
  · rcases htimely with (hscore | hnone) | hlate
    · exact h.decay_neutral hnow hscore (Or.inl hscore)
    · rw [r.decay_of_nonpos now hnone, settledScore, if_pos hnone]
      refine ⟨⟨fun event hevent => ?_, Or.inl ⟨rfl, rfl⟩⟩, rfl⟩
      exact h.date_le _ (List.mem_cons_of_mem _ hevent)
    · have hafter := r.decay_score_of_late now hlate
      refine ⟨⟨h.date_le_decay hnow, Or.inr ⟨hafter, Or.inr ?_⟩⟩, ?_⟩
      · rw [r.decay_of_pos now (by omega)]
        exact hlate
      · rw [hafter, settledScore, if_neg (by omega)]
  · exact h.decay_neutral hnow hscore hold

end

omit [LinearOrder K] [IsStrictOrderedRing K] in
/-- An outcome that is timely finds the settled score. -/
theorem Follows.score_eq {r : Reputation K} {score : K} {date : Int} {event : Event}
    {rest : List Event} (h : Follows r score date (event :: rest))
    (hsettled : r.Settled event.time) :
    r.score = settledScore (some (score, date)) event.time := by
  have hle : r.lastUpdated ≤ event.time := h.date_le _ List.mem_cons_self
  rw [settledScore]
  rcases h.kept_or_neutral with ⟨rfl, rfl⟩ | ⟨hscore, rfl | hold⟩
  · rcases hsettled with hscore | hnone
    · rw [hscore, ite_self]
    · rw [if_pos hnone]
  · rw [hscore, ite_self]
  · have := numSeconds_mono (show r.lastUpdated - date ≤ event.time - date by omega)
    rw [hscore, if_neg (by omega)]

/-- What the table has of an agent follows what the outcomes say of it. -/
def FollowsIn (e : ReputationEngine K) (agent : AgentId) (rest : List Event) :
    Option (K × Int) → Prop
  | none => e.scores agent = none
  | some (score, date) => ∃ r, e.scores agent = some r ∧ Follows r score date rest

theorem followsIn_step {e : ReputationEngine K} {agent : AgentId} {event : Event}
    {rest : List Event} {last : Option (K × Int)} (h : FollowsIn e agent (event :: rest) last)
    (hordered : ∀ later ∈ rest, event.time ≤ later.time) (htimely : Timely e event) :
    FollowsIn (step e event) agent rest (account agent last event) := by
  cases event with
  | update agent' outcome now =>
      rw [account]
      split
      · next heq =>
          subst heq
          have hfound : ((e.scores agent).getD (.default now)).score = settledScore last now := by
            cases last with
            | none =>
                rw [FollowsIn] at h
                rw [h]
                rfl
            | some last =>
                obtain ⟨r, hr, hfollows⟩ := h
                rw [hr, Option.getD_some]
                exact hfollows.score_eq (htimely r hr)
          refine ⟨_, scores_update_self e agent outcome now, hordered, Or.inl ⟨?_, rfl⟩⟩
          rw [Reputation.apply, hfound]
      · next hne =>
          have hsame := scores_update_of_ne e hne outcome now
          cases last with
          | none => exact hsame.trans h
          | some last =>
              obtain ⟨r, hr, hfollows⟩ := h
              refine ⟨r, hsame.trans hr, fun later hlater => ?_, hfollows.kept_or_neutral⟩
              exact hfollows.date_le later (List.mem_cons_of_mem _ hlater)
  | decayAll now =>
      rw [account]
      cases last with
      | none =>
          rw [FollowsIn] at h ⊢
          rw [scores_decayAll, h, Option.map_none]
      | some last =>
          obtain ⟨r, hr, hfollows⟩ := h
          refine ⟨r.decay now, by rw [scores_decayAll, hr, Option.map_some], ?_⟩
          exact (hfollows.decay hordered (htimely agent r hr)).1

theorem followsIn_after {e : ReputationEngine K} {agent : AgentId} {events rest : List Event}
    {last : Option (K × Int)} (h : FollowsIn e agent (events ++ rest) last)
    (hordered : Ordered (events ++ rest)) (htimely : Run.Along step Timely e events) :
    FollowsIn (Run.after step e events) agent rest (events.foldl (account agent) last) := by
  induction events generalizing e last with
  | nil => exact h
  | cons event events ih =>
      obtain ⟨hhead, htail⟩ := List.pairwise_cons.mp hordered
      exact ih (followsIn_step h hhead htimely.1) htail htimely.2

/-- After a timely run that ends in a sweep, an agent has the score its outcomes give. -/
theorem scoreAt_eq_of_timely {events : List Event} {now : Int}
    (hordered : Ordered (events ++ [Event.decayAll now]))
    (htimely : Run.Along (step (K := K)) Timely .new (events ++ [Event.decayAll now]))
    (agent : AgentId) :
    (Run.after (step (K := K)) .new (events ++ [Event.decayAll now])).reputationOf agent =
      scoreAt agent events now := by
  obtain ⟨hbefore, hlast, -⟩ := (Run.along_append step Timely _ _ _).mp htimely
  have hfollows : FollowsIn (Run.after step (.new : ReputationEngine K) events) agent
      [Event.decayAll now] (events.foldl (account agent) none) := followsIn_after rfl hordered hbefore
  rw [Run.after_append, Run.after_cons, Run.after_nil, scoreAt, account_outcomes,
    ReputationEngine.reputationOf, scores_decayAll]
  cases hsaid : events.foldl (account agent) (none : Option (K × Int)) with
  | none =>
      rw [hsaid, FollowsIn] at hfollows
      rw [hfollows]
      rfl
  | some last =>
      rw [hsaid] at hfollows
      obtain ⟨r, hr, hfollows⟩ := hfollows
      rw [hr]
      exact (hfollows.decay (List.forall_mem_nil _) (hlast agent r hr)).2

/-- Two timely runs with the same outcomes that end in a sweep at the same time agree on every
score; the timely runs are those whose outcomes discard no decay that is due and whose sweeps no
later one tells; and in every run the scores are between zero and one throughout. -/
theorem sweeps_agree :
    (∀ (events events' : List Event) (now : Int), outcomes events = outcomes events' →
      Ordered (events ++ [Event.decayAll now]) → Ordered (events' ++ [Event.decayAll now]) →
      Run.Along (step (K := K)) Timely .new (events ++ [Event.decayAll now]) →
      Run.Along (step (K := K)) Timely .new (events' ++ [Event.decayAll now]) →
      ∀ agent,
        (Run.after (step (K := K)) .new (events ++ [Event.decayAll now])).reputationOf agent =
        (Run.after (step (K := K)) .new (events' ++ [Event.decayAll now])).reputationOf agent) ∧
    (∀ events : List Event,
      Run.Along (step (K := K)) (fun e event => DiscardsNothing e event ∧ SweepUnseen e event)
        .new events ↔
      Run.Along (step (K := K)) Timely .new events) ∧
    ∀ events : List Event, Run.Throughout (step (K := K)) Bounded .new events := by
  refine ⟨?_, timely_iff _, bounded_throughout⟩
  intro events events' now houtcomes hordered hordered' htimely htimely' agent
  rw [scoreAt_eq_of_timely hordered htimely, scoreAt_eq_of_timely hordered' htimely', scoreAt,
    scoreAt, houtcomes]

/-- All scores of the table have one date. -/
def DatedAt (e : ReputationEngine K) (date : Int) : Prop :=
  ∀ agent r, e.scores agent = some r → r.lastUpdated = date

omit [IsStrictOrderedRing K] in
theorem datedAt_update (agent : AgentId) (outcome : ActionOutcome) (date : Int) :
    DatedAt (step (ReputationEngine.new : ReputationEngine K) (.update agent outcome date))
      date := by
  intro agent' r hr
  rcases eq_or_ne agent' agent with rfl | hne
  · rw [scores_update_self] at hr
    rw [← Option.some.inj hr, Reputation.apply]
  · rw [scores_update_of_ne _ hne] at hr
    cases hr

theorem DatedAt.decayAll {e : ReputationEngine K} {date now : Int} (h : DatedAt e date)
    (hnone : numSeconds (now - date) ≤ 0) : DatedAt (step e (.decayAll now)) date := by
  intro agent r hr
  rw [scores_decayAll, Option.map_eq_some_iff] at hr
  obtain ⟨r, hr, rfl⟩ := hr
  have hdate := h agent r hr
  rw [r.decay_of_nonpos now (by rw [hdate]; exact hnone), hdate]

omit [LinearOrder K] [IsStrictOrderedRing K] in
theorem DatedAt.timely {e : ReputationEngine K} {date now : Int} (h : DatedAt e date)
    (hnow : numSeconds (now - date) ≤ 0 ∨ 72000 ≤ numSeconds (now - date)) :
    Timely e (.decayAll now) := by
  intro agent r hr
  rw [Reputation.Settled, h agent r hr]
  exact hnow.imp_left Or.inr

theorem sweeps_agree_after_override :
    (Run.after step (ReputationEngine.new : ReputationEngine ℚ)
      [.update "a" .userOverrode 0, .decayAll 72000000000000]).reputationOf "a" =
    (Run.after step (ReputationEngine.new : ReputationEngine ℚ)
      [.update "a" .userOverrode 0, .decayAll 500000000,
        .decayAll 72000000000000]).reputationOf "a" := by
  have hfirst : Timely (ReputationEngine.new : ReputationEngine ℚ)
      (.update "a" .userOverrode 0) := by
    intro _ hr
    cases hr
  have hdated := datedAt_update (K := ℚ) "a" .userOverrode 0
  refine (sweeps_agree (K := ℚ)).1 [.update "a" .userOverrode 0]
    [.update "a" .userOverrode 0, .decayAll 500000000] 72000000000000 rfl (by decide)
    (by decide) ?_ ?_ "a"
  · simp only [List.cons_append, List.nil_append, Run.Along]
    exact ⟨hfirst, hdated.timely (by decide), trivial⟩
  · simp only [List.cons_append, List.nil_append, Run.Along]
    exact ⟨hfirst, hdated.timely (by decide),
      (hdated.decayAll (by decide)).timely (by decide), trivial⟩

/-- Two hours in one sweep, and in two. -/
theorem sweep_between_changes_score :
    (Run.after step (ReputationEngine.new : ReputationEngine ℚ)
      [.update "a" .userOverrode 0, .decayAll 7200000000000]).reputationOf "a" ≠
    (Run.after step (ReputationEngine.new : ReputationEngine ℚ)
      [.update "a" .userOverrode 0, .decayAll 3600000000000,
        .decayAll 7200000000000]).reputationOf "a" := by
  decide +kernel

end Hal.Reputations

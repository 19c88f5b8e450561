/-
# `Cognos.Hal.TemporalTrust` — trust that fades

`temporal_trust.rs` over the reals, with an exact power function: an agent has a baseline and an
earned part that halves with each half-life since its date, and the trust is their sum, clamped.
Elapsed times and half-lives count in whole seconds.

    trustAt_eq             the trust, by how many half-lives have passed
    reinforce_unseen_iff   when reinforcing by nothing changes nothing
    half_life_from_iff     when a half-life applies only from the time it is set at
    prunes_unseen_iff      when pruning is not seen in the trust, nor in later reinforcements
    path_independent_iff   all three

Setting a half-life leaves the earned part and its date, so the new one applies to the time before
as well.  Pruning forgets the half-life, and how far baseline and earned part are off neutral
together.  Times and durations are nanoseconds.
-/
import Mathlib
import Cognos.Lib.UnitClamp
import Cognos.Hal.AuthorityCompressor

namespace Hal.Temporal

abbrev AgentId := String

/-! ## Halves -/

/-- What is left of one after so many half-lives. -/
noncomputable def half (x : ℝ) : ℝ := 2 ^ (-x)

@[simp] theorem half_zero : half 0 = 1 := by rw [half, neg_zero, Real.rpow_zero]

theorem half_add (x y : ℝ) : half (x + y) = half x * half y := by
  rw [half, neg_add, Real.rpow_add two_pos, half, half]

theorem half_pos (x : ℝ) : 0 < half x := Real.rpow_pos_of_pos two_pos _

theorem half_inj {x y : ℝ} : half x = half y ↔ x = y := by
  rw [half, half, Real.rpow_right_inj two_pos (by norm_num), neg_inj]

theorem half_le {x y : ℝ} (h : x ≤ y) : half y ≤ half x := by
  rw [half, half, Real.rpow_le_rpow_left_iff one_lt_two]
  exact neg_le_neg h

theorem half_le_one {x : ℝ} (h : 0 ≤ x) : half x ≤ 1 := half_zero ▸ half_le h

theorem half_one : half 1 = 1 / 2 := by
  rw [half, Real.rpow_neg two_pos.le, Real.rpow_one, one_div]

/-! ## Entries -/

/-- Default half-life for earned trust. -/
def defaultHalfLifeDays : Int := 7

/-- `Duration::days`. -/
def days (n : Int) : Int := n * 86400 * 1000000000

/-- Per-agent temporal trust state. -/
structure TrustEntry where
  baseline : ℝ
  earned : ℝ
  lastReinforced : Int
  halfLife : Int

namespace TrustEntry

/-- A new entry with the given baseline and the default half-life. -/
def new (baseline : ℝ) (now : Int) : TrustEntry := ⟨baseline, 0, now, days defaultHalfLifeDays⟩

/-- The decayed earned component. -/
noncomputable def decayedEarned (e : TrustEntry) (now : Int) : ℝ :=
  let elapsed := now - e.lastReinforced
  if elapsed ≤ 0 then e.earned
  else
    let halfLifeSecs : ℝ := max (numSeconds e.halfLife) 1
    let elapsedSecs : ℝ := max (numSeconds elapsed) 0
    e.earned * 2 ^ (-elapsedSecs / halfLifeSecs)

/-- Effective trust value, accounting for decay. -/
noncomputable def trustAt (e : TrustEntry) (now : Int) : ℝ :=
  unitClamp (e.baseline + e.decayedEarned now)

end TrustEntry

/-! ## The table -/

/-- The per-agent temporal trust table. -/
structure TemporalTrust where
  entries : AgentId → Option TrustEntry

namespace TemporalTrust

/-- Effective trust for an agent, neutral for those with no entry. -/
noncomputable def trustAt (t : TemporalTrust) (agent : AgentId) (now : Int) : ℝ :=
  match t.entries agent with
  | some entry => entry.trustAt now
  | none => 0.5

/-- `entry(agent).or_insert_with(..)`. -/
noncomputable def entry (t : TemporalTrust) (agent : AgentId) (now : Int) : TrustEntry :=
  (t.entries agent).getD (.new 0.5 now)

/-- Reinforce an agent's trust. -/
noncomputable def reinforce (t : TemporalTrust) (agent : AgentId) (delta : ℝ) (now : Int) :
    TemporalTrust :=
  let entry := t.entry agent now
  ⟨Function.update t.entries agent
    (some { entry with earned := entry.decayedEarned now + delta, lastReinforced := now })⟩

open Classical in
/-- Drop the agents whose decayed earned component is small and whose baseline is neutral. -/
noncomputable def decayAll (t : TemporalTrust) (now : Int) : TemporalTrust :=
  ⟨fun agent => (t.entries agent).filter fun entry =>
    ¬ (|entry.decayedEarned now| < 1e-4 ∧ |entry.baseline - 0.5| < 1e-6)⟩

/-- Configure a custom half-life for an agent. -/
noncomputable def setHalfLife (t : TemporalTrust) (agent : AgentId) (halfLife : Int) (now : Int) :
    TemporalTrust :=
  ⟨Function.update t.entries agent (some { t.entry agent now with halfLife := halfLife })⟩

/-- Reinforcements of an agent, one after the other. -/
noncomputable def reinforceAll (t : TemporalTrust) (agent : AgentId) (rs : List (ℝ × Int)) :
    TemporalTrust :=
  rs.foldl (fun t r => t.reinforce agent r.1 r.2) t

end TemporalTrust

/-! ## What paths have to agree on -/

/-- Reinforcing by nothing is not seen later. -/
def ReinforceUnseen (t : TemporalTrust) (agent : AgentId) (t1 t2 : Int) : Prop :=
  (t.reinforce agent 0 t1).trustAt agent t2 = t.trustAt agent t2

/-- An entry decayed at the old half-life until now, and at the new one from now on. -/
noncomputable def TrustEntry.switched (e : TrustEntry) (halfLife : Int) (now : Int) : TrustEntry :=
  { e with earned := e.decayedEarned now, lastReinforced := now, halfLife := halfLife }

/-- The half-life applies only from the time it is set at, and leaves the trust of that time. -/
def HalfLifeFrom (t : TemporalTrust) (agent : AgentId) (halfLife : Int) (t1 t2 : Int) : Prop :=
  (t.setHalfLife agent halfLife t1).trustAt agent t1 = t.trustAt agent t1 ∧
    (t.setHalfLife agent halfLife t1).trustAt agent t2 =
      ((t.entry agent t1).switched halfLife t1).trustAt t2

/-- Pruning is not seen, by more than its epsilon, in any agent's trust from then on, whatever it
is reinforced by. -/
def PruneUnseen (t : TemporalTrust) (t1 : Int) : Prop :=
  ∀ (agent : AgentId) (later : List (ℝ × Int)) (t2 : Int), (∀ r ∈ later, t1 ≤ r.2) → t1 ≤ t2 →
    |((t.decayAll t1).reinforceAll agent later).trustAt agent t2 -
      (t.reinforceAll agent later).trustAt agent t2| ≤ 1e-4

/-! ## The trust by half-lives -/

/-- The whole seconds from one time to another. -/
def secs (t0 t1 : Int) : Int := max (numSeconds (t1 - t0)) 0

/-- A half-life in whole seconds. -/
def halfLifeSecs (halfLife : Int) : Int := max (numSeconds halfLife) 1

/-- The half-lives from one time to another. -/
noncomputable def lives (halfLife t0 t1 : Int) : ℝ := (secs t0 t1 : ℝ) / halfLifeSecs halfLife

/-- The trust after so many half-lives, before it is clamped. -/
noncomputable def TrustEntry.after (e : TrustEntry) (x : ℝ) : ℝ := e.baseline + e.earned * half x

/-- Two numbers of half-lives come to the same trust: nothing is earned, the numbers are the same,
or both leave the trust past the same end. -/
def TrustEntry.SameAfter (e : TrustEntry) (x y : ℝ) : Prop :=
  e.earned = 0 ∨ x = y ∨ (e.after x ≤ 0 ∧ e.after y ≤ 0) ∨ (1 ≤ e.after x ∧ 1 ≤ e.after y)

theorem secs_nonneg (t0 t1 : Int) : 0 ≤ secs t0 t1 := le_max_right _ _

theorem secs_mono (t0 : Int) {t1 t2 : Int} (h : t1 ≤ t2) : secs t0 t1 ≤ secs t0 t2 :=
  max_le_max_right 0 (Int.tdiv_le_tdiv (by norm_num) (by omega))

theorem secs_add {t0 k : Int} (h : 0 ≤ k) : secs t0 (t0 + k * 1000000000) = k := by
  rw [secs, add_sub_cancel_left, numSeconds, Int.mul_tdiv_cancel _ (by norm_num), max_eq_left h]

theorem halfLifeSecs_pos (halfLife : Int) : (0 : ℝ) < halfLifeSecs halfLife := by
  have h : 0 < halfLifeSecs halfLife := lt_of_lt_of_le one_pos (le_max_right _ _)
  exact_mod_cast h

theorem lives_nonneg (halfLife t0 t1 : Int) : 0 ≤ lives halfLife t0 t1 := by
  have h : (0 : ℝ) ≤ secs t0 t1 := by exact_mod_cast secs_nonneg _ _
  exact div_nonneg h (halfLifeSecs_pos halfLife).le

theorem lives_mono (halfLife t0 : Int) {t1 t2 : Int} (h : t1 ≤ t2) :
    lives halfLife t0 t1 ≤ lives halfLife t0 t2 := by
  have hsecs : (secs t0 t1 : ℝ) ≤ secs t0 t2 := by exact_mod_cast secs_mono t0 h
  exact div_le_div_of_nonneg_right hsecs (halfLifeSecs_pos halfLife).le

namespace TrustEntry

variable (e : TrustEntry)

theorem decayedEarned_eq (now : Int) :
    e.decayedEarned now = e.earned * half (lives e.halfLife e.lastReinforced now) := by
  rw [decayedEarned]
  dsimp only
  split
  · next hle =>
      have hzero : secs e.lastReinforced now = 0 :=
        max_eq_right ((Int.tdiv_le_tdiv (by norm_num) hle).trans_eq (Int.zero_tdiv _))
      rw [lives, hzero, Int.cast_zero, zero_div, half_zero, mul_one]
  · rw [half, lives, secs, halfLifeSecs, neg_div]
    push_cast
    rfl

theorem trustAt_eq (now : Int) :
    e.trustAt now = unitClamp (e.after (lives e.halfLife e.lastReinforced now)) := by
  rw [trustAt, decayedEarned_eq, after]

/-- Two numbers of half-lives give one trust exactly when they come to the same. -/
theorem unitClamp_after_eq_iff (x y : ℝ) :
    unitClamp (e.after x) = unitClamp (e.after y) ↔ e.SameAfter x y := by
  have hsame : e.after x = e.after y ↔ e.earned = 0 ∨ x = y := by
    rw [after, after, add_right_inj, mul_eq_mul_left_iff, half_inj, or_comm]
  rw [unitClamp_eq_iff, hsame, SameAfter, or_assoc]

/-- The half-lives that have passed go into the earned part. -/
theorem trustAt_switched (halfLife t1 t2 : Int) :
    (e.switched halfLife t1).trustAt t2 =
      unitClamp (e.after (lives e.halfLife e.lastReinforced t1 + lives halfLife t1 t2)) := by
  rw [trustAt_eq, after, after, half_add, ← mul_assoc, ← e.decayedEarned_eq t1]
  rfl

end TrustEntry

/-! ## Reinforcing by nothing, and setting a half-life -/

namespace TemporalTrust

variable (t : TemporalTrust) (agent : AgentId)

theorem entries_reinforce (delta : ℝ) (now : Int) :
    (t.reinforce agent delta now).entries agent =
      some { t.entry agent now with
        earned := (t.entry agent now).decayedEarned now + delta
        lastReinforced := now } :=
  Function.update_self ..

theorem trustAt_of_entry {t : TemporalTrust} {agent : AgentId} {e : TrustEntry}
    (h : t.entries agent = some e) (now : Int) : t.trustAt agent now = e.trustAt now := by
  rw [trustAt, h]

/-- An unknown agent has the trust of a new entry. -/
theorem trustAt_eq_entry (t1 t2 : Int) : t.trustAt agent t2 = (t.entry agent t1).trustAt t2 := by
  rw [trustAt, entry]
  split
  · next e he => rw [he, Option.getD_some]
  · next hnone =>
      rw [hnone, Option.getD_none, TrustEntry.trustAt_eq, TrustEntry.after, TrustEntry.new,
        zero_mul, add_zero, unitClamp_of_mem (by norm_num)]

end TemporalTrust

/-- The half-lives of an entry add up over two spans. -/
def TrustEntry.Adds (e : TrustEntry) (t1 t2 : Int) : Prop :=
  e.SameAfter (lives e.halfLife e.lastReinforced t1 + lives e.halfLife t1 t2)
    (lives e.halfLife e.lastReinforced t2)

/-- The time before an entry's half-life is set does not tell the new one. -/
def TrustEntry.Switches (e : TrustEntry) (halfLife t1 t2 : Int) : Prop :=
  e.SameAfter (lives halfLife e.lastReinforced t1) (lives e.halfLife e.lastReinforced t1) ∧
    e.SameAfter (lives halfLife e.lastReinforced t2)
      (lives e.halfLife e.lastReinforced t1 + lives halfLife t1 t2)

theorem reinforce_unseen_iff (t : TemporalTrust) (agent : AgentId) (t1 t2 : Int) :
    ReinforceUnseen t agent t1 t2 ↔ (t.entry agent t1).Adds t1 t2 := by
  rw [ReinforceUnseen, TemporalTrust.trustAt_of_entry (t.entries_reinforce agent 0 t1),
    t.trustAt_eq_entry agent t1, TrustEntry.Adds, ← TrustEntry.unitClamp_after_eq_iff,
    ← TrustEntry.trustAt_switched, ← TrustEntry.trustAt_eq, add_zero]
  rfl

theorem half_life_from_iff (t : TemporalTrust) (agent : AgentId) (halfLife t1 t2 : Int) :
    HalfLifeFrom t agent halfLife t1 t2 ↔ (t.entry agent t1).Switches halfLife t1 t2 := by
  have hset : (t.setHalfLife agent halfLife t1).entries agent =
      some { t.entry agent t1 with halfLife := halfLife } := Function.update_self ..
  rw [HalfLifeFrom, TemporalTrust.trustAt_of_entry hset, TemporalTrust.trustAt_of_entry hset,
    t.trustAt_eq_entry agent t1, TrustEntry.Switches, ← TrustEntry.unitClamp_after_eq_iff,
    ← TrustEntry.unitClamp_after_eq_iff, ← TrustEntry.trustAt_switched, ← TrustEntry.trustAt_eq,
    TrustEntry.trustAt_eq { t.entry agent t1 with halfLife := halfLife },
    TrustEntry.trustAt_eq { t.entry agent t1 with halfLife := halfLife }]
  rfl

/-! ## Pruning -/

/-- The decay takes an entry for a neutral one. -/
def TrustEntry.Pruned (e : TrustEntry) (now : Int) : Prop :=
  |e.decayedEarned now| < 1e-4 ∧ |e.baseline - 0.5| < 1e-6

/-- An entry is neutral as a whole, and fades as a new one does. -/
def TrustEntry.Forgettable (e : TrustEntry) (now : Int) : Prop :=
  |e.baseline + e.decayedEarned now - 0.5| ≤ 1e-4 ∧ halfLifeSecs e.halfLife = 604800

theorem halfLifeSecs_default : halfLifeSecs (days defaultHalfLifeDays) = 604800 := by decide

/-- What lies between two small numbers is small. -/
theorem abs_between_le {a b c x : ℝ} (ha : |a| ≤ c) (hb : |b| ≤ c) (h0 : 0 ≤ x) (h1 : x ≤ 1) :
    |a + x * (b - a)| ≤ c := by
  rw [abs_le] at ha hb ⊢
  constructor
  · nlinarith
  · nlinarith

/-- Two entries that fade alike, and are near each other now and in the end. -/
structure Near (e e' : TrustEntry) : Prop where
  date_eq : e.lastReinforced = e'.lastReinforced
  halfLife_eq : halfLifeSecs e.halfLife = halfLifeSecs e'.halfLife
  baseline_le : |e.baseline - e'.baseline| ≤ 1e-4
  sum_le : |e.baseline + e.earned - (e'.baseline + e'.earned)| ≤ 1e-4

theorem Near.lives_eq {e e' : TrustEntry} (h : Near e e') (now : Int) :
    lives e.halfLife e.lastReinforced now = lives e'.halfLife e'.lastReinforced now := by
  rw [lives, lives, h.date_eq, h.halfLife_eq]

/-- They stay near as they fade. -/
theorem Near.decayed_le {e e' : TrustEntry} (h : Near e e') (now : Int) :
    |e.baseline + e.decayedEarned now - (e'.baseline + e'.decayedEarned now)| ≤ 1e-4 := by
  have hmid := abs_between_le h.baseline_le h.sum_le (half_pos _).le
    (half_le_one (lives_nonneg e'.halfLife e'.lastReinforced now))
  rw [e.decayedEarned_eq, e'.decayedEarned_eq, h.lives_eq]
  convert hmid using 2
  ring

theorem Near.trustAt_le {e e' : TrustEntry} (h : Near e e') (now : Int) :
    |e.trustAt now - e'.trustAt now| ≤ 1e-4 := by
  rw [TrustEntry.trustAt, TrustEntry.trustAt]
  exact (abs_unitClamp_sub_le _ _).trans (h.decayed_le now)

/-- And as they are reinforced. -/
theorem Near.reinforce {e e' : TrustEntry} (h : Near e e') (delta : ℝ) (now : Int) :
    Near { e with earned := e.decayedEarned now + delta, lastReinforced := now }
      { e' with earned := e'.decayedEarned now + delta, lastReinforced := now } where
  date_eq := rfl
  halfLife_eq := h.halfLife_eq
  baseline_le := h.baseline_le
  sum_le := by
    dsimp only
    convert h.decayed_le now using 2
    ring

namespace TrustEntry

variable {e : TrustEntry}

/-- What may be forgotten may be so later. -/
theorem Forgettable.later {t1 t2 : Int} (h : e.Forgettable t1) (hbase : |e.baseline - 0.5| < 1e-6)
    (hle : t1 ≤ t2) : |e.baseline + e.decayedEarned t2 - 0.5| ≤ 1e-4 := by
  have hfade : e.decayedEarned t2 = e.decayedEarned t1 *
      half (lives e.halfLife e.lastReinforced t2 - lives e.halfLife e.lastReinforced t1) := by
    rw [e.decayedEarned_eq, e.decayedEarned_eq, mul_assoc, ← half_add]
    congr 2
    ring
  have hmid := abs_between_le (hbase.le.trans (by norm_num)) h.1 (half_pos _).le
    (half_le_one (sub_nonneg.mpr (lives_mono e.halfLife e.lastReinforced hle)))
  rw [hfade]
  convert hmid using 2
  ring

theorem Forgettable.trustAt_le {t1 t2 : Int} (h : e.Forgettable t1)
    (hbase : |e.baseline - 0.5| < 1e-6) (hle : t1 ≤ t2) : |0.5 - e.trustAt t2| ≤ 1e-4 := by
  have hhalf : unitClamp (0.5 : ℝ) = 0.5 := unitClamp_of_mem (by norm_num)
  rw [trustAt, ← hhalf, abs_sub_comm]
  exact (abs_unitClamp_sub_le _ _).trans (h.later hbase hle)

/-- Reinforced, it is near a new one. -/
theorem Forgettable.near {t1 now : Int} (h : e.Forgettable t1) (hbase : |e.baseline - 0.5| < 1e-6)
    (hle : t1 ≤ now) (delta : ℝ) :
    Near { new 0.5 now with
        earned := (new 0.5 now).decayedEarned now + delta, lastReinforced := now }
      { e with earned := e.decayedEarned now + delta, lastReinforced := now } where
  date_eq := rfl
  halfLife_eq := halfLifeSecs_default.trans h.2.symm
  baseline_le := by
    rw [abs_sub_comm]
    exact hbase.le.trans (by norm_num)
  sum_le := by
    dsimp only
    rw [(new 0.5 now).decayedEarned_eq, abs_sub_comm]
    convert h.later hbase hle using 2
    rw [new]
    ring

end TrustEntry

/-- What two tables have of an agent: the same, nothing and an entry that may be forgotten, or
near entries. -/
def NearIn (agent : AgentId) (t1 : Int) (t t' : TemporalTrust) : Prop :=
  t.entries agent = t'.entries agent ∨
    (∃ e', t.entries agent = none ∧ t'.entries agent = some e' ∧ e'.Forgettable t1 ∧
      |e'.baseline - 0.5| < 1e-6) ∨
    ∃ e e', t.entries agent = some e ∧ t'.entries agent = some e' ∧ Near e e'

theorem NearIn.reinforce {agent : AgentId} {t1 now : Int} {t t' : TemporalTrust}
    (h : NearIn agent t1 t t') (hle : t1 ≤ now) (delta : ℝ) :
    NearIn agent t1 (t.reinforce agent delta now) (t'.reinforce agent delta now) := by
  rw [NearIn, t.entries_reinforce, t'.entries_reinforce]
  rcases h with hsame | ⟨e', hnone, hsome, hforget, hbase⟩ | ⟨e, e', he, he', hnear⟩
  · left
    rw [TemporalTrust.entry, TemporalTrust.entry, hsame]
  · refine Or.inr (Or.inr ⟨_, _, rfl, rfl, ?_⟩)
    rw [TemporalTrust.entry, TemporalTrust.entry, hnone, hsome]
    exact hforget.near hbase hle delta
  · refine Or.inr (Or.inr ⟨_, _, rfl, rfl, ?_⟩)
    rw [TemporalTrust.entry, TemporalTrust.entry, he, he']
    exact hnear.reinforce delta now

theorem NearIn.reinforceAll {agent : AgentId} {t1 : Int} {t t' : TemporalTrust}
    (h : NearIn agent t1 t t') {rs : List (ℝ × Int)} (hrs : ∀ r ∈ rs, t1 ≤ r.2) :
    NearIn agent t1 (t.reinforceAll agent rs) (t'.reinforceAll agent rs) := by
  induction rs generalizing t t' with
  | nil => exact h
  | cons r rs ih =>
      obtain ⟨hr, hrest⟩ := List.forall_mem_cons.mp hrs
      exact ih (h.reinforce hr r.1) hrest

theorem NearIn.trustAt_le {agent : AgentId} {t1 t2 : Int} {t t' : TemporalTrust}
    (h : NearIn agent t1 t t') (hle : t1 ≤ t2) :
    |t.trustAt agent t2 - t'.trustAt agent t2| ≤ 1e-4 := by
  rcases h with hsame | ⟨e', hnone, hsome, hforget, hbase⟩ | ⟨e, e', he, he', hnear⟩
  · rw [TemporalTrust.trustAt, TemporalTrust.trustAt, hsame, sub_self, abs_zero]
    norm_num
  · rw [TemporalTrust.trustAt_of_entry hsome, TemporalTrust.trustAt, hnone]
    exact hforget.trustAt_le hbase hle
  · rw [TemporalTrust.trustAt_of_entry he, TemporalTrust.trustAt_of_entry he']
    exact hnear.trustAt_le t2

theorem entries_decayAll_of_pruned {t : TemporalTrust} {agent : AgentId} {e : TrustEntry}
    {now : Int} (he : t.entries agent = some e) (h : e.Pruned now) :
    (t.decayAll now).entries agent = none := by
  rw [TemporalTrust.decayAll]
  dsimp only
  rw [he, Option.filter_some, if_neg]
  rw [decide_eq_true_eq]
  exact not_not_intro h

theorem entries_decayAll_of_not_pruned {t : TemporalTrust} {agent : AgentId} {e : TrustEntry}
    {now : Int} (he : t.entries agent = some e) (h : ¬ e.Pruned now) :
    (t.decayAll now).entries agent = some e := by
  rw [TemporalTrust.decayAll]
  dsimp only
  rw [he, Option.filter_some, if_pos]
  rw [decide_eq_true_eq]
  exact h

theorem nearIn_decayAll {t : TemporalTrust} {now : Int}
    (h : ∀ agent e, t.entries agent = some e → e.Pruned now → e.Forgettable now)
    (agent : AgentId) : NearIn agent now (t.decayAll now) t := by
  cases he : t.entries agent with
  | none =>
      left
      rw [TemporalTrust.decayAll]
      dsimp only
      rw [he, Option.filter_none]
  | some e =>
      by_cases hpruned : e.Pruned now
      · exact Or.inr (Or.inl ⟨e, entries_decayAll_of_pruned he hpruned, he, h agent e he hpruned,
          hpruned.2⟩)
      · exact Or.inl ((entries_decayAll_of_not_pruned he hpruned).trans he.symm)

/-! ## Pruning that is seen -/

theorem half_half {a b : Int} (h : a < b) : half b ≤ half a / 2 := by
  have hle : ((a : ℝ) + 1) ≤ b := by exact_mod_cast h
  calc half b ≤ half (a + 1) := half_le hle
    _ = half a / 2 := by rw [half_add, half_one, mul_one_div]

section

variable {t : TemporalTrust} {agent : AgentId} {e : TrustEntry} {t1 : Int}

/-- The entry has to be neutral as a whole. -/
theorem sum_le_of_pruneUnseen (h : PruneUnseen t t1) (he : t.entries agent = some e)
    (hpruned : e.Pruned t1) : |e.baseline + e.decayedEarned t1 - 0.5| ≤ 1e-4 := by
  have hnow := h agent [] t1 (List.forall_mem_nil _) le_rfl
  obtain ⟨hdecayed, hbase⟩ := hpruned
  have hd := abs_lt.mp hdecayed
  have hb := abs_lt.mp hbase
  have hmem : 0 ≤ e.baseline + e.decayedEarned t1 ∧ e.baseline + e.decayedEarned t1 ≤ 1 := by
    constructor <;> linarith
  rw [TemporalTrust.reinforceAll, TemporalTrust.reinforceAll, List.foldl_nil, List.foldl_nil,
    TemporalTrust.trustAt_of_entry he, TemporalTrust.trustAt,
    entries_decayAll_of_pruned he ⟨hdecayed, hbase⟩, abs_sub_comm, TrustEntry.trustAt,
    unitClamp_of_mem hmem] at hnow
  exact hnow

/-- A reinforcement of a forgotten agent and of one that is not, read a number of half-lives of
either later. -/
theorem reinforced_of_pruneUnseen (h : PruneUnseen t t1) (he : t.entries agent = some e)
    (hpruned : e.Pruned t1) (delta : ℝ) :
    |unitClamp (0.5 + delta * half (halfLifeSecs e.halfLife)) -
      unitClamp (e.baseline + (e.decayedEarned t1 + delta) * half 604800)| ≤ 1e-4 := by
  have hnonneg : 0 ≤ halfLifeSecs e.halfLife * 604800 :=
    mul_nonneg (zero_le_one.trans (le_max_right _ _)) (by norm_num)
  have hlater := h agent [(delta, t1)] (t1 + halfLifeSecs e.halfLife * 604800 * 1000000000)
    (by simp) (by omega)
  have hnone := entries_decayAll_of_pruned he hpruned
  rw [TemporalTrust.reinforceAll, TemporalTrust.reinforceAll, List.foldl_cons, List.foldl_nil,
    List.foldl_cons, List.foldl_nil,
    TemporalTrust.trustAt_of_entry (TemporalTrust.entries_reinforce _ agent delta t1),
    TemporalTrust.trustAt_of_entry (TemporalTrust.entries_reinforce _ agent delta t1),
    TrustEntry.trustAt_eq, TrustEntry.trustAt_eq, TemporalTrust.entry, TemporalTrust.entry, hnone,
    he, Option.getD_none, Option.getD_some] at hlater
  dsimp only [TrustEntry.after, TrustEntry.new] at hlater
  have hpos := halfLifeSecs_pos e.halfLife
  have hnew : lives (days defaultHalfLifeDays) t1
      (t1 + halfLifeSecs e.halfLife * 604800 * 1000000000) = halfLifeSecs e.halfLife := by
    rw [lives, secs_add hnonneg, halfLifeSecs_default]
    push_cast
    rw [mul_div_cancel_right₀ _ (by norm_num)]
  have hold : lives e.halfLife t1
      (t1 + halfLifeSecs e.halfLife * 604800 * 1000000000) = 604800 := by
    rw [lives, secs_add hnonneg]
    push_cast
    rw [mul_div_cancel_left₀ _ hpos.ne']
  have hzero : TrustEntry.decayedEarned ⟨0.5, 0, t1, days defaultHalfLifeDays⟩ t1 = 0 := by
    rw [TrustEntry.decayedEarned_eq, zero_mul]
  rw [hnew, hold, hzero, zero_add] at hlater
  exact hlater

/-- And it has to fade as a new one does. -/
theorem halfLife_of_pruneUnseen (h : PruneUnseen t t1) (he : t.entries agent = some e)
    (hpruned : e.Pruned t1) : halfLifeSecs e.halfLife = 604800 := by
  have hseen := reinforced_of_pruneUnseen h he hpruned
  have hd := abs_lt.mp hpruned.1
  have hb := abs_lt.mp hpruned.2
  have hx := half_pos (halfLifeSecs e.halfLife)
  have hy := half_pos 604800
  have hy1 : half 604800 ≤ 1 := half_le_one (by norm_num)
  have hx1 : half (halfLifeSecs e.halfLife) ≤ 1 := half_le_one (halfLifeSecs_pos _).le
  rcases lt_trichotomy (halfLifeSecs e.halfLife) 604800 with hlt | heq | hgt
  · -- a new entry fades more slowly: reinforced so that its trust is one
    exfalso
    have hhalf : half 604800 ≤ half (halfLifeSecs e.halfLife) / 2 := by
      exact_mod_cast half_half hlt
    have hdelta := hseen (0.5 / half (halfLifeSecs e.halfLife))
    rw [div_mul_cancel₀ _ hx.ne', unitClamp_of_mem (by norm_num)] at hdelta
    have hratio : 0.5 / half (halfLifeSecs e.halfLife) * half 604800 ≤ 0.25 := by
      rw [div_mul_eq_mul_div, div_le_iff₀ hx]
      linarith
    have hfade : e.decayedEarned t1 * half 604800 ≤ 1e-4 := by nlinarith
    have hlow : unitClamp (e.baseline + (e.decayedEarned t1 +
        0.5 / half (halfLifeSecs e.halfLife)) * half 604800) ≤ 0.9 :=
      unitClamp_le (by rw [add_mul]; linarith) (by norm_num)
    have := (abs_le.mp hdelta).2
    linarith
  · exact heq
  · -- the entry fades more slowly: reinforced so that its trust is nearly one
    exfalso
    have hhalf : half (halfLifeSecs e.halfLife) ≤ half 604800 / 2 := by
      exact_mod_cast half_half hgt
    have hdelta := hseen (0.5 / half 604800 - e.decayedEarned t1)
    rw [add_sub_cancel, div_mul_cancel₀ _ hy.ne'] at hdelta
    have hhigh : 0.99 ≤ unitClamp (e.baseline + 0.5) := le_unitClamp (by linarith) (by norm_num)
    have hratio : 0.5 / half 604800 * half (halfLifeSecs e.halfLife) ≤ 0.25 := by
      rw [div_mul_eq_mul_div, div_le_iff₀ hy]
      linarith
    have hfade : -(e.decayedEarned t1 * half (halfLifeSecs e.halfLife)) ≤ 1e-4 := by nlinarith
    have hlow : unitClamp (0.5 + (0.5 / half 604800 - e.decayedEarned t1) *
        half (halfLifeSecs e.halfLife)) ≤ 0.8 :=
      unitClamp_le (by rw [sub_mul]; linarith) (by norm_num)
    have := (abs_le.mp hdelta).1
    linarith

end

theorem prunes_unseen_iff (t : TemporalTrust) (t1 : Int) :
    PruneUnseen t t1 ↔
      ∀ agent e, t.entries agent = some e → e.Pruned t1 → e.Forgettable t1 := by
  constructor
  · intro h agent e he hpruned
    exact ⟨sum_le_of_pruneUnseen h he hpruned, halfLife_of_pruneUnseen h he hpruned⟩
  · intro h agent later t2 hlater ht2
    exact ((nearIn_decayAll h agent).reinforceAll hlater).trustAt_le ht2

/-- The trust does not depend on the path exactly when the half-lives of the agent's entry add up
over the two spans, those before its half-life is set come to the same in both half-lives, and the
entries that are pruned are neutral as a whole and fade as new ones do. -/
theorem path_independent_iff (t : TemporalTrust) (agent : AgentId) (halfLife t1 t2 : Int) :
    (ReinforceUnseen t agent t1 t2 ∧ HalfLifeFrom t agent halfLife t1 t2 ∧ PruneUnseen t t1) ↔
      (t.entry agent t1).Adds t1 t2 ∧ (t.entry agent t1).Switches halfLife t1 t2 ∧
        ∀ agent' e, t.entries agent' = some e → e.Pruned t1 → e.Forgettable t1 := by
  rw [reinforce_unseen_iff, half_life_from_iff, prunes_unseen_iff]

theorem lives_of_secs {halfLife t0 t1 s l : Int} (hs : secs t0 t1 = s)
    (hl : halfLifeSecs halfLife = l) : lives halfLife t0 t1 = (s : ℝ) / l := by
  rw [lives, hs, hl]

/-- A table of one kind of entry, with a half-life of a second. -/
def sampleTable (earned : ℝ) : TemporalTrust := ⟨fun _ => some ⟨0.5, earned, 0, 1000000000⟩⟩

theorem not_sameAfter_sample {earned : ℝ} {x y : ℕ} (h : 0 < earned) (hle : earned ≤ 0.4)
    (hxy : x ≠ y) : ¬ TrustEntry.SameAfter ⟨0.5, earned, 0, 1000000000⟩ x y := by
  have hbound : ∀ n : ℕ, 0 < TrustEntry.after ⟨0.5, earned, 0, 1000000000⟩ n ∧
      TrustEntry.after ⟨0.5, earned, 0, 1000000000⟩ n < 1 := by
    intro n
    have hpos := half_pos n
    have hone : half n ≤ 1 := half_le_one (Nat.cast_nonneg n)
    rw [TrustEntry.after]
    constructor
    · positivity
    · nlinarith
  rintro (hzero | hsame | ⟨hlow, -⟩ | ⟨hhigh, -⟩)
  · exact h.ne' hzero
  · exact hxy (by exact_mod_cast hsame)
  · exact absurd (hbound x).1 (not_lt.mpr hlow)
  · exact absurd (hbound x).2 (not_lt.mpr hhigh)

/-- Three seconds cut in the middle are two whole ones; two seconds become one half-life when it
is set to two; and an entry with such a half-life is pruned. -/
theorem paths_seen :
    ¬ ReinforceUnseen (sampleTable 0.4) "a" 1500000000 3000000000 ∧
      ¬ HalfLifeFrom (sampleTable 0.4) "a" 2000000000 2000000000 2000000000 ∧
      ¬ PruneUnseen (sampleTable 0) 0 := by
  refine ⟨?_, ?_, ?_⟩
  · rw [reinforce_unseen_iff, TrustEntry.Adds]
    have hcut : lives 1000000000 0 1500000000 + lives 1000000000 1500000000 3000000000 =
        (2 : ℕ) := by
      rw [lives_of_secs (s := 1) (l := 1) (by decide) (by decide),
        lives_of_secs (s := 1) (l := 1) (by decide) (by decide)]
      norm_num
    have hwhole : lives 1000000000 0 3000000000 = (3 : ℕ) := by
      rw [lives_of_secs (s := 3) (l := 1) (by decide) (by decide)]
      norm_num
    show ¬ TrustEntry.SameAfter _ (lives 1000000000 0 1500000000 +
      lives 1000000000 1500000000 3000000000) (lives 1000000000 0 3000000000)
    rw [hcut, hwhole]
    exact not_sameAfter_sample (by norm_num) le_rfl (by decide)
  · rw [half_life_from_iff, TrustEntry.Switches]
    rintro ⟨hsame, -⟩
    have hnew : lives 2000000000 0 2000000000 = (1 : ℕ) := by
      rw [lives_of_secs (s := 2) (l := 2) (by decide) (by decide)]
      norm_num
    have hold : lives 1000000000 0 2000000000 = (2 : ℕ) := by
      rw [lives_of_secs (s := 2) (l := 1) (by decide) (by decide)]
      norm_num
    have hsame : TrustEntry.SameAfter _ (lives 2000000000 0 2000000000)
      (lives 1000000000 0 2000000000) := hsame
    rw [hnew, hold] at hsame
    exact not_sameAfter_sample (by norm_num) le_rfl (by decide) hsame
  · rw [prunes_unseen_iff]
    intro h
    have hpruned : TrustEntry.Pruned ⟨0.5, 0, 0, 1000000000⟩ 0 := by
      rw [TrustEntry.Pruned, TrustEntry.decayedEarned_eq, zero_mul, abs_zero, sub_self, abs_zero]
      norm_num
    have hlives := (h "a" _ rfl hpruned).2
    exact absurd hlives (by decide)

end Hal.Temporal

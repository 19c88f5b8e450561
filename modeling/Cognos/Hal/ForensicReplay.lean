/-
# `Cognos.Hal.ForensicReplay` — the past from the audit chain

`forensic_replay.rs`: a replay picks the entries of a range of times out of the whole chain; a
reconstruction goes over the chain until the first entry that is later than its time, and sums up
those before it.  An append asks nothing of an entry's time, so any list of entries is one of a
chain.

    loop_eq             the loop sums up the entries before the first later one
    snapshot_eq         the sum, by the events it is of
    reconstructed_iff   when it is of all events of the past

Times are nanoseconds since the epoch, from the least time on that there is.
-/
import Mathlib
import Cognos.Hal.AuditChain
import Cognos.Lib.Decimal

namespace Hal.Forensic

open Hal.Chain

/-- The times there are, from the least to the greatest. -/
structure Calendar where
  least : Int
  greatest : Int
  le : least ≤ greatest

/-- A `DateTime`. -/
abbrev Instant (R : Calendar) := { t : Int // R.least ≤ t ∧ t ≤ R.greatest }

/-- `DateTime::MIN_UTC`. -/
def Calendar.minUtc (R : Calendar) : Instant R := ⟨R.least, le_rfl, R.le⟩

/-- `f32::max`: a number rather than none. -/
def f32Max (p score : Float32) : Float32 :=
  if p.isNaN then score else if score.isNaN then p else if p < score then score else p

variable {R : Calendar}

/-- A single event materialized during a replay window. -/
structure ReplayEvent (R : Calendar) where
  seq : Nat
  ts : Instant R
  agent : String
  action : String
  halScore : Option Float32
  halLevel : Option String

def ReplayEvent.fromChained (chained : ChainedEntry (Instant R)) : ReplayEvent R where
  seq := chained.seq
  ts := chained.entry.ts
  agent := chained.entry.agent
  action := chained.entry.action
  halScore := chained.entry.halScore
  halLevel := chained.entry.halLevel

/-- A synthetic reconstruction of system state at a point in time. -/
@[ext] structure SystemSnapshot (R : Calendar) where
  atTime : Instant R
  agentActionCounts : String → Option Nat
  lastActionPerAgent : String → Option (ReplayEvent R)
  peakScoreLastHour : Option Float32
  confirmOrBlockLastHour : Nat

/-- `Duration::hours(1)`. -/
def hour : Int := 3600000000000

/-- Replay a time range. -/
def replayRange (chain : AuditChain (Instant R)) (start stop : Instant R) :
    List (ReplayEvent R) :=
  (chain.entries.filter fun c => decide (start.val ≤ c.entry.ts.val) &&
    decide (c.entry.ts.val ≤ stop.val)).map
    ReplayEvent.fromChained

def isConfirmOrBlock (level : Option String) : Bool :=
  level = some "confirm" || level = some "block"

/-- What the loop makes of one entry. -/
def tally (s : SystemSnapshot R) (chained : ChainedEntry (Instant R)) :
    SystemSnapshot R :=
  let agent := chained.entry.agent
  let s := { s with
    agentActionCounts := Function.update s.agentActionCounts agent
      (some ((s.agentActionCounts agent).getD 0 + 1))
    lastActionPerAgent := Function.update s.lastActionPerAgent agent
      (some (.fromChained chained)) }
  if s.atTime.val - hour < chained.entry.ts.val then
    { s with
      peakScoreLastHour := match chained.entry.halScore with
        | some score => some (s.peakScoreLastHour.elim score fun p => f32Max p score)
        | none => s.peakScoreLastHour
      confirmOrBlockLastHour :=
        if isConfirmOrBlock chained.entry.halLevel then s.confirmOrBlockLastHour + 1
        else s.confirmOrBlockLastHour }
  else s

/-- The loop over the chain; it ends at the first later entry. -/
def reconstructFrom (s : SystemSnapshot R) :
    List (ChainedEntry (Instant R)) → SystemSnapshot R
  | [] => s
  | chained :: rest =>
      if s.atTime.val < chained.entry.ts.val then s else reconstructFrom (tally s chained) rest

def SystemSnapshot.empty (atTime : Instant R) : SystemSnapshot R :=
  ⟨atTime, fun _ => none, fun _ => none, none, 0⟩

/-- Reconstruct a synthetic system snapshot.  It panics where there is no time an hour before. -/
def reconstructState (chain : AuditChain (Instant R)) (atTime : Instant R) :
    Option (SystemSnapshot R) :=
  if R.least ≤ atTime.val - hour then some (reconstructFrom (.empty atTime) chain.entries) else none

/-! ## What a snapshot says -/

/-- The greatest of some scores. -/
def peak : List Float32 → Option Float32
  | [] => none
  | score :: scores => some (scores.foldl f32Max score)

/-- The events of the hour before. -/
def lastHour (atTime : Instant R) (events : List (ReplayEvent R)) : List (ReplayEvent R) :=
  events.filter fun e => decide (atTime.val - hour < e.ts.val)

/-- The summary of some events: how many each agent has, its last one, and of the last hour the
peak score and how many were to confirm or to block. -/
def summary (atTime : Instant R) (events : List (ReplayEvent R)) : SystemSnapshot R where
  atTime := atTime
  agentActionCounts agent :=
    let count := events.countP fun e => e.agent = agent
    if count = 0 then none else some count
  lastActionPerAgent agent := (events.filter fun e => e.agent = agent).getLast?
  peakScoreLastHour := peak ((lastHour atTime events).filterMap ReplayEvent.halScore)
  confirmOrBlockLastHour := (lastHour atTime events).countP fun e => isConfirmOrBlock e.halLevel

/-- The reconstruction is the summary of all events of the past. -/
def Reconstructed (chain : AuditChain (Instant R)) (atTime : Instant R) : Prop :=
  reconstructState chain atTime = some (summary atTime (replayRange chain R.minUtc atTime))

/-! ## The loop -/

section

variable (s : SystemSnapshot R) (c : ChainedEntry (Instant R))

@[simp] theorem atTime_tally : (tally s c).atTime = s.atTime := by
  rw [tally]
  dsimp only
  split <;> rfl

theorem agentActionCounts_tally : (tally s c).agentActionCounts =
    Function.update s.agentActionCounts c.entry.agent
      (some ((s.agentActionCounts c.entry.agent).getD 0 + 1)) := by
  rw [tally]
  dsimp only
  split <;> rfl

theorem lastActionPerAgent_tally : (tally s c).lastActionPerAgent =
    Function.update s.lastActionPerAgent c.entry.agent (some (.fromChained c)) := by
  rw [tally]
  dsimp only
  split <;> rfl

end

/-- The loop sums up the entries before the first later one. -/
theorem loop_eq (s : SystemSnapshot R) (entries : List (ChainedEntry (Instant R))) :
    reconstructFrom s entries =
      (entries.takeWhile fun c => decide (c.entry.ts.val ≤ s.atTime.val)).foldl tally s := by
  induction entries generalizing s with
  | nil => rfl
  | cons c rest ih =>
      rw [reconstructFrom, List.takeWhile_cons]
      split
      · next hlater =>
          rw [decide_eq_false (not_le.mpr hlater)]
          rfl
      · next hearlier =>
          rw [decide_eq_true (not_lt.mp hearlier), if_pos rfl, List.foldl_cons, ih, atTime_tally]

theorem peak_concat (scores : List Float32) (score : Float32) :
    peak (scores ++ [score]) = some ((peak scores).elim score fun p => f32Max p score) := by
  cases scores with
  | nil => rfl
  | cons first scores =>
      rw [List.cons_append, peak, peak, List.foldl_append]
      rfl

section

variable (atTime : Instant R) (events : List (ReplayEvent R)) (e : ReplayEvent R)

theorem lastHour_concat_of_recent (h : atTime.val - hour < e.ts.val) :
    lastHour atTime (events ++ [e]) = lastHour atTime events ++ [e] := by
  rw [lastHour, List.filter_append, List.filter_cons, if_pos (decide_eq_true h), List.filter_nil]
  rfl

theorem lastHour_concat_of_old (h : ¬ atTime.val - hour < e.ts.val) :
    lastHour atTime (events ++ [e]) = lastHour atTime events := by
  rw [lastHour, List.filter_append, List.filter_cons_of_neg (by simpa using h), List.filter_nil,
    List.append_nil]
  rfl

theorem counts_concat (agent : String) :
    (summary atTime (events ++ [e])).agentActionCounts agent =
      if agent = e.agent then some (((summary atTime events).agentActionCounts agent).getD 0 + 1)
      else (summary atTime events).agentActionCounts agent := by
  simp only [summary, List.countP_append, List.countP_singleton, decide_eq_true_eq]
  rcases eq_or_ne agent e.agent with heq | hne
  · rw [if_pos heq.symm, if_pos heq, if_neg (Nat.succ_ne_zero _)]
    split
    · next hzero => rw [hzero, Option.getD_none]
    · rw [Option.getD_some]
  · rw [if_neg hne.symm, if_neg hne, Nat.add_zero]

theorem last_concat (agent : String) :
    (summary atTime (events ++ [e])).lastActionPerAgent agent =
      if agent = e.agent then some e else (summary atTime events).lastActionPerAgent agent := by
  simp only [summary, List.filter_append]
  rcases eq_or_ne agent e.agent with heq | hne
  · rw [if_pos heq, List.filter_cons, if_pos (decide_eq_true heq.symm), List.filter_nil,
      List.getLast?_append, List.getLast?_singleton, Option.some_or]
  · rw [if_neg hne, List.filter_cons_of_neg (by simpa using hne.symm), List.filter_nil,
      List.append_nil]

end

theorem ite_succ (b : Bool) (n : Nat) :
    (if b then n + 1 else n) = n + if b then 1 else 0 := by
  cases b <;> rfl

/-- One more entry is summed up. -/
theorem tally_summary (atTime : Instant R) (events : List (ReplayEvent R))
    (c : ChainedEntry (Instant R)) :
    tally (summary atTime events) c = summary atTime (events ++ [.fromChained c]) := by
  apply SystemSnapshot.ext
  · exact atTime_tally _ c
  · funext agent
    rw [agentActionCounts_tally, counts_concat, Function.update_apply]
    rcases eq_or_ne agent c.entry.agent with rfl | hne
    · rw [if_pos rfl]
      exact (if_pos rfl).symm
    · rw [if_neg hne]
      exact (if_neg hne).symm
  · funext agent
    rw [lastActionPerAgent_tally, last_concat, Function.update_apply]
    rfl
  · by_cases hrecent : atTime.val - hour < c.entry.ts.val
    · have hlast := lastHour_concat_of_recent atTime events (.fromChained c) hrecent
      rw [tally, summary, summary]
      dsimp only
      rw [if_pos hrecent, hlast, List.filterMap_append]
      dsimp only
      cases hscore : c.entry.halScore with
      | none =>
          rw [List.filterMap_cons_none (by exact hscore), List.filterMap_nil, List.append_nil]
      | some score =>
          rw [List.filterMap_cons_some (by exact hscore), List.filterMap_nil, peak_concat]
    · have hlast := lastHour_concat_of_old atTime events (.fromChained c) hrecent
      rw [tally, summary, summary]
      dsimp only
      rw [if_neg hrecent, hlast]
  · by_cases hrecent : atTime.val - hour < c.entry.ts.val
    · have hlast := lastHour_concat_of_recent atTime events (.fromChained c) hrecent
      rw [tally, summary, summary]
      dsimp only
      rw [if_pos hrecent, hlast, List.countP_append, List.countP_singleton]
      exact ite_succ _ _
    · have hlast := lastHour_concat_of_old atTime events (.fromChained c) hrecent
      rw [tally, summary, summary]
      dsimp only
      rw [if_neg hrecent, hlast]

/-- The sum of some entries is the summary of their events. -/
theorem snapshot_eq (atTime : Instant R) (entries : List (ChainedEntry (Instant R))) :
    entries.foldl tally (.empty atTime) = summary atTime (entries.map ReplayEvent.fromChained) := by
  induction entries using List.reverseRecOn with
  | nil => exact SystemSnapshot.ext rfl rfl rfl rfl rfl
  | append_singleton entries c ih =>
      rw [List.foldl_append, ih, List.foldl_cons, List.foldl_nil, tally_summary, List.map_append]
      rfl

theorem reconstructState_eq (chain : AuditChain (Instant R)) {atTime : Instant R}
    (h : R.least ≤ atTime.val - hour) :
    reconstructState chain atTime = some (summary atTime
      ((chain.entries.takeWhile fun c => decide (c.entry.ts.val ≤ atTime.val)).map
        ReplayEvent.fromChained)) := by
  rw [reconstructState, if_pos h, loop_eq, SystemSnapshot.empty]
  exact congrArg some (snapshot_eq atTime _)

theorem replayRange_minUtc (chain : AuditChain (Instant R)) (stop : Instant R) :
    replayRange chain R.minUtc stop =
      (chain.entries.filter fun c => decide (c.entry.ts.val ≤ stop.val)).map
        ReplayEvent.fromChained := by
  rw [replayRange, Calendar.minUtc]
  congr 2
  funext c
  rw [decide_eq_true c.entry.ts.property.1, Bool.true_and]

/-! ## When the past is all there -/

/-- No entry of the past is behind a later one. -/
def Unbroken (chain : AuditChain (Instant R)) (atTime : Instant R) : Prop :=
  chain.entries.Pairwise fun a b => atTime.val < a.entry.ts.val → atTime.val < b.entry.ts.val

/-- What the first later element ends is all that passes the test when nothing behind one that
fails it passes. -/
theorem takeWhile_eq_filter {α : Type} (p : α → Bool) {xs : List α}
    (h : xs.Pairwise fun a b => p a = false → p b = false) : xs.takeWhile p = xs.filter p := by
  induction xs with
  | nil => rfl
  | cons x xs ih =>
      obtain ⟨hhead, htail⟩ := List.pairwise_cons.mp h
      cases hx : p x with
      | true => rw [List.takeWhile_cons, List.filter_cons, hx, if_pos rfl, if_pos rfl, ih htail]
      | false =>
          rw [List.takeWhile_cons, List.filter_cons, hx, if_neg Bool.false_ne_true,
            if_neg Bool.false_ne_true, List.filter_eq_nil_iff.mpr]
          intro y hy
          rw [hhead y hy hx]
          exact Bool.false_ne_true

theorem pairwise_of_takeWhile_eq_filter {α : Type} (p : α → Bool) {xs : List α}
    (h : xs.takeWhile p = xs.filter p) : xs.Pairwise fun a b => p a = false → p b = false := by
  induction xs with
  | nil => exact List.Pairwise.nil
  | cons x xs ih =>
      cases hx : p x with
      | true =>
          rw [List.takeWhile_cons, List.filter_cons, hx, if_pos rfl, if_pos rfl] at h
          refine List.pairwise_cons.mpr ⟨fun y _ hfalse => ?_, ih (List.cons.inj h).2⟩
          rw [hx] at hfalse
          cases hfalse
      | false =>
          rw [List.takeWhile_cons, List.filter_cons, hx, if_neg Bool.false_ne_true,
            if_neg Bool.false_ne_true] at h
          have hall : ∀ y ∈ xs, p y = false := fun y hy =>
            Bool.eq_false_iff.mpr (List.filter_eq_nil_iff.mp h.symm y hy)
          refine List.pairwise_cons.mpr ⟨fun y hy _ => hall y hy, ?_⟩
          exact List.pairwise_of_forall_mem_list fun a _ b hb _ => hall b hb

theorem takeWhile_sublist_filter {α : Type} (p : α → Bool) (xs : List α) :
    (xs.takeWhile p).Sublist (xs.filter p) := by
  have hsub : ((xs.takeWhile p).filter p).Sublist (xs.filter p) :=
    (List.takeWhile_sublist p).filter p
  rwa [List.filter_eq_self.mpr fun x hx => List.mem_takeWhile_imp hx] at hsub

theorem unbroken_iff (chain : AuditChain (Instant R)) (atTime : Instant R) :
    Unbroken chain atTime ↔
      chain.entries.takeWhile (fun c => decide (c.entry.ts.val ≤ atTime.val)) =
        chain.entries.filter fun c => decide (c.entry.ts.val ≤ atTime.val) := by
  have hpairs : Unbroken chain atTime ↔ chain.entries.Pairwise fun a b =>
      decide (a.entry.ts.val ≤ atTime.val) = false →
        decide (b.entry.ts.val ≤ atTime.val) = false := by
    rw [Unbroken]
    simp only [decide_eq_false_iff_not, not_le]
  rw [hpairs]
  exact ⟨takeWhile_eq_filter _, pairwise_of_takeWhile_eq_filter _⟩

/-- A summary counts its events by agent. -/
theorem countP_eq_of_summary_eq {atTime : Instant R} {events events' : List (ReplayEvent R)}
    (h : summary atTime events = summary atTime events') (agent : String) :
    (events.countP fun e => e.agent = agent) = events'.countP fun e => e.agent = agent := by
  have hcounts := congrFun (congrArg SystemSnapshot.agentActionCounts h) agent
  simp only [summary] at hcounts
  split at hcounts
  · next hzero =>
      split at hcounts
      · next hzero' => rw [hzero, hzero']
      · cases hcounts
  · split at hcounts
    · cases hcounts
    · exact Option.some.inj hcounts

/-- So a part of some events with the same summary is all of them. -/
theorem eq_of_summary_eq {atTime : Instant R} {part events : List (ReplayEvent R)}
    (hpart : part.Sublist events) (h : summary atTime part = summary atTime events) :
    part = events := by
  have hperm : (part.map ReplayEvent.agent).Perm (events.map ReplayEvent.agent) := by
    rw [List.perm_iff_count]
    intro agent
    rw [List.count_eq_countP, List.count_eq_countP, List.countP_map, List.countP_map]
    exact countP_eq_of_summary_eq h agent
  have hlength := hperm.length_eq
  rw [List.length_map, List.length_map] at hlength
  exact hpart.eq_of_length hlength

/-- A reconstruction that is of all events of the past has seen them all. -/
theorem unbroken_of_reconstructed {chain : AuditChain (Instant R)} {atTime : Instant R}
    (h : Reconstructed chain atTime) : R.least ≤ atTime.val - hour ∧ Unbroken chain atTime := by
  rw [Reconstructed, replayRange_minUtc] at h
  have hhour : R.least ≤ atTime.val - hour := by
    by_contra hnone
    rw [reconstructState, if_neg hnone] at h
    cases h
  rw [reconstructState_eq chain hhour] at h
  have hevents := eq_of_summary_eq ((takeWhile_sublist_filter _ _).map _) (Option.some.inj h)
  refine ⟨hhour, (unbroken_iff chain atTime).mpr ((takeWhile_sublist_filter _ _).eq_of_length ?_)⟩
  have hlength := congrArg List.length hevents
  rwa [List.length_map, List.length_map] at hlength

/-- The reconstruction is of all events of the past exactly when there is a time an hour before,
and no entry of the past is behind a later one. -/
theorem reconstructed_iff (chain : AuditChain (Instant R)) (atTime : Instant R) :
    Reconstructed chain atTime ↔ R.least ≤ atTime.val - hour ∧ Unbroken chain atTime := by
  constructor
  · exact unbroken_of_reconstructed
  · rintro ⟨hhour, hunbroken⟩
    rw [Reconstructed, replayRange_minUtc, reconstructState_eq chain hhour,
      (unbroken_iff chain atTime).mp hunbroken]

/-! ## A chain -/

/-- The times of `chrono`. -/
def chrono : Calendar := ⟨-8334601228800000000000, 8210266876799999999999, by decide⟩

/-- A time by its distance from the least one. -/
def showInstant (t : Instant chrono) : String := (t.val - chrono.least).toNat.repr

def readInstant (s : String) : Option (Instant chrono) :=
  let t := chrono.least + Decimal.value s.toList
  if h : chrono.least ≤ t ∧ t ≤ chrono.greatest then some ⟨t, h⟩ else none

theorem readInstant_showInstant (t : Instant chrono) : readInstant (showInstant t) = some t := by
  have hdigits : Decimal.value (showInstant t).toList = (t.val - chrono.least).toNat := by
    rw [showInstant, Nat.toList_repr]
    exact Nat.ofDigitChars_ten_toDigits
  have hval : chrono.least + (Decimal.value (showInstant t).toList : Int) = t.val := by
    rw [hdigits, Int.toNat_of_nonneg (Int.sub_nonneg.mpr t.property.1)]
    ring
  rw [readInstant]
  simp only [hval]
  exact dif_pos t.property

theorem escapedSize_digit {c : Char} (h : c.isDigit = true) : Json.escapedSize c = 1 := by
  obtain ⟨hlow, hhigh⟩ := Bool.and_eq_true_iff.mp h
  have hlow : 48 ≤ c.toNat := UInt32.le_iff_toNat_le.mp (of_decide_eq_true hlow)
  have hhigh : c.toNat ≤ 57 := UInt32.le_iff_toNat_le.mp (of_decide_eq_true hhigh)
  have hplain : ¬ (c = '"' ∨ c = '\\') := by
    rintro (rfl | rfl)
    · exact absurd hlow (by decide)
    · exact absurd hhigh (by decide)
  have hascii : c.toNat ≤ 127 := by omega
  have hsize : c.utf8Size = 1 := Char.utf8Size_eq_one_iff.mpr (UInt32.le_iff_toNat_le.mpr hascii)
  rw [Json.escapedSize, if_neg hplain, if_pos (by omega), hsize]

theorem escapedLen_showInstant (t : Instant chrono) : Json.escapedLen (showInstant t) ≤ 40 := by
  have hdigits := Decimal.isDigits_toDigits (t.val - chrono.least).toNat
  have hones : (showInstant t).toList.map Json.escapedSize =
      List.replicate (showInstant t).toList.length 1 := by
    refine List.eq_replicate_iff.mpr ⟨List.length_map _, fun n hn => ?_⟩
    obtain ⟨c, hc, rfl⟩ := List.mem_map.mp hn
    rw [showInstant, Nat.toList_repr] at hc
    exact escapedSize_digit (Decimal.mem_of_isDigits hdigits hc)
  have hrange : (t.val - chrono.least).toNat < 10 ^ 40 := by
    have hle : t.val - chrono.least ≤ chrono.greatest - chrono.least :=
      Int.sub_le_sub_right t.property.2 _
    have hspan : chrono.greatest - chrono.least = 16544868105599999999999 := by decide
    omega
  rw [Json.escapedLen, hones, List.sum_replicate, smul_eq_mul, mul_one, showInstant,
    Nat.toList_repr]
  exact (Nat.length_toDigits_le_iff (by omega) (by omega)).mpr hrange

def instants : Codecs (Instant chrono) :=
  Codecs.sample.withTimes showInstant readInstant (fun a b => decide (a.val < b.val))
    readInstant_showInstant escapedLen_showInstant

/-- An entry of the planner at 2 s, and behind it one of the file agent at 0 s. -/
def sampleEntries : List (Chain.AuditEntry (Instant chrono)) :=
  [⟨.nil, ⟨2000000000, by decide⟩, "planner", "open_file", none, none, ⟨[], List.nodup_nil⟩⟩,
    ⟨.nil, ⟨0, by decide⟩, "file", "delete_file", none, some "block", ⟨[], List.nodup_nil⟩⟩]

/-- At 1 s the second entry is not seen. -/
theorem entry_behind_later_lost :
    ¬ Reconstructed (AuditChain.appendAll instants sampleSha (.new sampleSha) sampleEntries)
      ⟨1000000000, by decide⟩ := by
  intro h
  have hpairs := (List.pairwise_cons.mp (unbroken_of_reconstructed h).2).1
  exact absurd (hpairs _ List.mem_cons_self (by decide)) (by decide)

end Hal.Forensic

/-
# `Cognos.AgentIpc.Replay` — concurrent integrity checks and the memory of nonces

`validate_integrity` taken apart into the steps between which another call can run: a
look at the nonces, a look at the time of day, the instant of the record, the record, and
the clean-up, one shard of the map after the other.

    lookUp     signature and nonce are fine, the nonce is not in the map
    checkTime  the time stamp is within the window at this time of day
    stamp      `Instant::now()`
    record     the nonce is put in the map: from here on the call succeeds
    sweep      the next shard loses what is sixty seconds old; after the last, `Ok`

`advance` is the world's step: the monotone clock moves on and the time of day is what it
then is.

An envelope stays out for as long as it could pass again (`Once`), in every run in which

    no call looks up a nonce another call has looked up and not yet recorded,
    no envelope is checked exactly thirty seconds before its own time,
    the time of day moves on at least as far as the monotone clock.
-/
import Mathlib
import Cognos.AgentIpc.Impersonation
import Cognos.Lib.Run

namespace AgentIpc

/-! ## States and steps -/

/-- `Utc::now()`, in nanoseconds since 1970; chrono has no dates of 2 ^ 53 milliseconds. -/
structure TimeOfDay where
  ns : Nat
  valid : ns / 1000000 < 2 ^ 53

namespace TimeOfDay

/-- The milliseconds since 1970. -/
def ms (t : TimeOfDay) : Nat := t.ns / 1000000

/-- `timestamp_millis()`. -/
def timestampMillis (t : TimeOfDay) : Int64 := Int64.ofNat t.ms

theorem toInt_timestampMillis (t : TimeOfDay) : t.timestampMillis.toInt = t.ms := by
  have h : t.ms < 2 ^ 53 := t.valid
  exact Int64.toInt_ofNat_of_lt (by omega)

end TimeOfDay

/-- How far a call has come. -/
inductive Phase
  | unseen
  | timely (verified : TimeOfDay)
  | stamped (verified : TimeOfDay) (instant : Nat)
  | sweeping (shard : Nat)

/-- When the time stamp was checked, of a call that has yet to record. -/
def Phase.verified? : Phase → Option TimeOfDay
  | .unseen => none
  | .timely verified => some verified
  | .stamped verified _ => some verified
  | .sweeping _ => none

structure Call where
  envelope : IntentEnvelope
  phase : Phase

/-- The call has looked its nonce up and not yet recorded it. -/
def Call.Pending (c : Call) : Prop := ∀ shard, c.phase ≠ .sweeping shard

/-- An accepted envelope: when it was found to be in time, and when it was recorded. -/
structure Acceptance where
  envelope : IntentEnvelope
  verified : TimeOfDay
  recorded : TimeOfDay

/-- The shards of a `DashMap`. -/
structure Shards where
  count : Nat
  shard : String → Fin count

/-- An `AuthManager`, the calls that are in it and what it has accepted. -/
structure AuthState where
  wall : TimeOfDay
  clock : Nat
  nonceCache : NonceCache
  calls : Nat → Option Call
  accepted : List Acceptance

namespace AuthState

/-- A manager nobody has called. -/
def start (wall : TimeOfDay) (clock : Nat) : AuthState where
  wall := wall
  clock := clock
  nonceCache := ∅
  calls _ := none
  accepted := []

def setCall (s : AuthState) (i : Nat) (c : Option Call) : AuthState :=
  { s with calls := Function.update s.calls i c }

end AuthState

inductive Act
  | advance (ns : Nat) (wall : TimeOfDay)
  | lookUp (i : Nat) (e : IntentEnvelope)
  | checkTime (i : Nat)
  | stamp (i : Nat)
  | record (i : Nat)
  | sweep (i : Nat)

namespace AuthState

variable (V : Ed25519) (H : Sha256) (D : Shards)

/-- The checks up to `contains_key`. -/
def Unseen (s : AuthState) (e : IntentEnvelope) : Bool :=
  verifyEnvelope V H e && !shortNonce e.nonce && decide (e.nonce ∉ s.nonceCache)

/-- What a shard's clean-up keeps. -/
def keeps (shard now : Nat) (nonce : String) (ts : Nat) : Bool :=
  decide ((D.shard nonce).val ≠ shard) || fresh now ts

def step (s : AuthState) : Act → AuthState
  | .advance ns wall => { s with clock := s.clock + ns, wall := wall }
  | .lookUp i e =>
      if (s.calls i).isNone && s.Unseen V H e then s.setCall i (some ⟨e, .unseen⟩) else s
  | .checkTime i =>
      match s.calls i with
      | some ⟨e, .unseen⟩ =>
          if e.verifyTimestamp s.wall.timestampMillis maxSkewMs then
            s.setCall i (some ⟨e, .timely s.wall⟩)
          else s.setCall i none
      | _ => s
  | .stamp i =>
      match s.calls i with
      | some ⟨e, .timely verified⟩ => s.setCall i (some ⟨e, .stamped verified s.clock⟩)
      | _ => s
  | .record i =>
      match s.calls i with
      | some ⟨e, .stamped verified instant⟩ =>
          { s.setCall i (some ⟨e, .sweeping 0⟩) with
            nonceCache := s.nonceCache.insert e.nonce instant
            accepted := s.accepted ++ [⟨e, verified, s.wall⟩] }
      | _ => s
  | .sweep i =>
      match s.calls i with
      | some ⟨e, .sweeping shard⟩ =>
          if shard < D.count then
            { s.setCall i (some ⟨e, .sweeping (shard + 1)⟩) with
              nonceCache := s.nonceCache.retain (keeps D shard s.clock) }
          else s.setCall i none
      | _ => s

/-- What a step does, guards included; the failed checks end a call. -/
inductive Moves (s : AuthState) : Act → AuthState → Prop
  | still {a : Act} : Moves s a s
  | advance (ns : Nat) (wall : TimeOfDay) :
      Moves s (.advance ns wall) { s with clock := s.clock + ns, wall := wall }
  | lookUp {i : Nat} {e : IntentEnvelope} : e.nonce ∉ s.nonceCache →
      Moves s (.lookUp i e) (s.setCall i (some ⟨e, .unseen⟩))
  | ended {a : Act} (i : Nat) : Moves s a (s.setCall i none)
  | checkTime {i : Nat} {e : IntentEnvelope} : s.calls i = some ⟨e, .unseen⟩ →
      e.verifyTimestamp s.wall.timestampMillis maxSkewMs = true →
      Moves s (.checkTime i) (s.setCall i (some ⟨e, .timely s.wall⟩))
  | stamp {i : Nat} {e : IntentEnvelope} {verified : TimeOfDay} :
      s.calls i = some ⟨e, .timely verified⟩ →
      Moves s (.stamp i) (s.setCall i (some ⟨e, .stamped verified s.clock⟩))
  | record {i : Nat} {e : IntentEnvelope} {verified : TimeOfDay} {instant : Nat} :
      s.calls i = some ⟨e, .stamped verified instant⟩ →
      Moves s (.record i)
        { s.setCall i (some ⟨e, .sweeping 0⟩) with
          nonceCache := s.nonceCache.insert e.nonce instant
          accepted := s.accepted ++ [⟨e, verified, s.wall⟩] }
  | sweep {i shard : Nat} {e : IntentEnvelope} : s.calls i = some ⟨e, .sweeping shard⟩ →
      Moves s (.sweep i)
        { s.setCall i (some ⟨e, .sweeping (shard + 1)⟩) with
          nonceCache := s.nonceCache.retain (keeps D shard s.clock) }

theorem step_moves (s : AuthState) (a : Act) : Moves D s a (step V H D s a) := by
  cases a with
  | advance ns wall => exact .advance ns wall
  | lookUp i e =>
      simp only [step]
      split
      · next h =>
          refine .lookUp ?_
          simp only [Unseen, Bool.and_eq_true, decide_eq_true_eq] at h
          exact h.2.2
      · exact .still
  | checkTime i =>
      simp only [step]
      split
      · next e hi =>
          split
          · next ht => exact .checkTime hi ht
          · exact .ended i
      · exact .still
  | stamp i =>
      simp only [step]
      split
      · next e verified hi => exact .stamp hi
      · exact .still
  | record i =>
      simp only [step]
      split
      · next e verified instant hi => exact .record hi
      · exact .still
  | sweep i =>
      simp only [step]
      split
      · next e shard hi =>
          split
          · exact .sweep hi
          · exact .ended i
      · exact .still

end AuthState

/-! ## The property -/

/-- The envelope would be found in time. -/
def Acceptance.CouldPass (a : Acceptance) (t : TimeOfDay) : Prop :=
  a.envelope.verifyTimestamp t.timestampMillis maxSkewMs = true

/-- Of two accepted envelopes with one nonce, the earlier could not pass any more, neither
when the later was found to be in time nor when it was recorded. -/
def Once (accepted : List Acceptance) : Prop :=
  accepted.Pairwise fun a b => a.envelope.nonce = b.envelope.nonce →
    ¬ a.CouldPass b.verified ∧ ¬ a.CouldPass b.recorded

/-- The step is none of the three kinds that go wrong. -/
def AuthState.Orderly (s : AuthState) : Act → Prop
  | .advance ns wall => s.wall.ns + ns ≤ wall.ns
  | .lookUp _ e => ∀ j c, s.calls j = some c → c.Pending → c.envelope.nonce ≠ e.nonce
  | .checkTime i => ∀ c, s.calls i = some c →
      c.envelope.timestampUnixMs ≠ s.wall.timestampMillis + maxSkewMs
  | _ => True

/-! ## Windows -/

/-- Found in time, and not at the far edge of the window. -/
def InTime (e : IntentEnvelope) (t : TimeOfDay) : Prop :=
  e.verifyTimestamp t.timestampMillis maxSkewMs = true ∧ e.timestampUnixMs.toInt < t.ms + 30000

/-- The window of the acceptance is over. -/
def Acceptance.Past (a : Acceptance) (t : TimeOfDay) : Prop :=
  a.envelope.timestampUnixMs.toInt + 30000 < t.ms ∧ a.verified.ms < t.ms

theorem verifyTimestamp_timeOfDay {e : IntentEnvelope} {t : TimeOfDay} :
    e.verifyTimestamp t.timestampMillis maxSkewMs = true ↔
      |(t.ms : Int) - e.timestampUnixMs.toInt| ≤ 30000 ∨
        (t.ms : Int) - e.timestampUnixMs.toInt = 2 ^ 63 := by
  have hvalid : t.ms < 2 ^ 53 := t.valid
  have hskew : maxSkewMs.toInt = 30000 := rfl
  have hiff := IntentEnvelope.verifyTimestamp_iff (e := e) (n := t.timestampMillis)
    (k := maxSkewMs) (by rw [t.toInt_timestampMillis]; omega)
    (by rw [t.toInt_timestampMillis]; omega) (by omega) (by omega)
  rwa [t.toInt_timestampMillis, hskew] at hiff

/-- The step's condition rules the far edge out. -/
theorem inTime_of_ne {e : IntentEnvelope} {t : TimeOfDay}
    (h : e.verifyTimestamp t.timestampMillis maxSkewMs = true)
    (hne : e.timestampUnixMs ≠ t.timestampMillis + maxSkewMs) : InTime e t := by
  have hvalid : t.ms < 2 ^ 53 := t.valid
  have hskew : maxSkewMs.toInt = 30000 := rfl
  have hedge : (t.timestampMillis + maxSkewMs).toInt = t.ms + 30000 := by
    rw [Int64.toInt_add, t.toInt_timestampMillis, hskew, Int.bmod_def]
    split <;> omega
  have hneInt : e.timestampUnixMs.toInt ≠ t.ms + 30000 := by
    rw [← hedge]
    exact fun heq => hne (Int64.toInt_inj.mp heq)
  refine ⟨h, ?_⟩
  rcases verifyTimestamp_timeOfDay.mp h with hin | hover
  · rw [abs_le] at hin
    omega
  · omega

namespace Acceptance

variable {a : Acceptance} {t t' : TimeOfDay}

theorem Past.mono (h : a.Past t) (ht : t.ns ≤ t'.ns) : a.Past t' := by
  have hms : t.ms ≤ t'.ms := Nat.div_le_div_right ht
  obtain ⟨hts, hverified⟩ := h
  exact ⟨by omega, by omega⟩

/-- What was in time once is not in time again when its window is over: the overflow lets an
envelope pass within one millisecond only. -/
theorem Past.not_couldPass (h : a.Past t) (hin : InTime a.envelope a.verified) :
    ¬ a.CouldPass t := by
  intro hpass
  obtain ⟨hts, hverified⟩ := h
  have hvalid : t.ms < 2 ^ 53 := t.valid
  have hthen := verifyTimestamp_timeOfDay.mp hin.1
  have hnow := verifyTimestamp_timeOfDay.mp hpass
  rw [abs_le] at hthen hnow
  omega

/-- Sixty seconds after it was in time, the window is over. -/
theorem past_of_elapsed (hin : InTime a.envelope a.verified)
    (h : a.verified.ns + nonceTtl ≤ t.ns) : a.Past t := by
  have hms : a.verified.ms + 60000 ≤ t.ms := by
    unfold TimeOfDay.ms
    unfold nonceTtl at h
    omega
  have hts := hin.2
  exact ⟨by omega, by omega⟩

end Acceptance

/-! ## What an orderly run keeps -/

/-- The nonce is in the map, at an instant the time of day has kept up with since. -/
def Acceptance.Remembered (a : Acceptance) (cache : NonceCache) (wall : TimeOfDay)
    (clock : Nat) : Prop :=
  ∃ instant, cache.lookup a.envelope.nonce = some instant ∧ instant ≤ clock ∧
    a.verified.ns + (clock - instant) ≤ wall.ns

/-- What is known of a call: where its nonce was accepted before, that was long ago, also when
its own time stamp was checked. -/
structure CallOk (accepted : List Acceptance) (wall : TimeOfDay) (clock : Nat) (c : Call) :
    Prop where
  clear : c.Pending → ∀ a ∈ accepted, a.envelope.nonce = c.envelope.nonce → a.Past wall
  inTime : ∀ w, c.phase.verified? = some w → InTime c.envelope w
  before : ∀ w, c.phase.verified? = some w → w.ns ≤ wall.ns
  clearThen : ∀ w, c.phase.verified? = some w →
    ∀ a ∈ accepted, a.envelope.nonce = c.envelope.nonce → a.Past w
  instant : ∀ w m, c.phase = .stamped w m → m ≤ clock ∧ w.ns + (clock - m) ≤ wall.ns

/-- The invariant of orderly runs. -/
structure Inv (s : AuthState) : Prop where
  inTime : ∀ a ∈ s.accepted, InTime a.envelope a.verified
  kept : ∀ a ∈ s.accepted, a.Past s.wall ∨ a.Remembered s.nonceCache s.wall s.clock
  calls : ∀ i c, s.calls i = some c → CallOk s.accepted s.wall s.clock c
  apart : ∀ i j c d, s.calls i = some c → s.calls j = some d → c.Pending → d.Pending →
    c.envelope.nonce = d.envelope.nonce → i = j
  once : Once s.accepted

theorem Call.pending_of_verified {c : Call} {w : TimeOfDay} (h : c.phase.verified? = some w) :
    c.Pending := by
  intro shard hs
  rw [hs] at h
  cases h

theorem Call.pending_unseen (e : IntentEnvelope) : (Call.mk e .unseen).Pending := by
  intro shard h
  cases h

/-- A call past its record has nothing left to go wrong. -/
theorem CallOk.sweeping (accepted : List Acceptance) (wall : TimeOfDay) (clock : Nat)
    (e : IntentEnvelope) (shard : Nat) : CallOk accepted wall clock ⟨e, .sweeping shard⟩ where
  clear h := absurd rfl (h shard)
  inTime w h := by cases h
  before w h := by cases h
  clearThen w h := by cases h
  instant w m h := by cases h

theorem CallOk.advance {accepted : List Acceptance} {wall wall' : TimeOfDay} {clock ns : Nat}
    {c : Call} (h : CallOk accepted wall clock c) (hw : wall.ns + ns ≤ wall'.ns) :
    CallOk accepted wall' (clock + ns) c where
  clear hp a ha hn := (h.clear hp a ha hn).mono (by omega)
  inTime := h.inTime
  before w hv := by
    have hle := h.before w hv
    omega
  clearThen := h.clearThen
  instant w m hm := by
    obtain ⟨hle, hsum⟩ := h.instant w m hm
    exact ⟨by omega, by omega⟩

/-- An acceptance under another nonce changes nothing for a call. -/
theorem CallOk.concat {accepted : List Acceptance} {wall : TimeOfDay} {clock : Nat} {c : Call}
    {b : Acceptance} (h : CallOk accepted wall clock c)
    (hb : c.Pending → b.envelope.nonce ≠ c.envelope.nonce) :
    CallOk (accepted ++ [b]) wall clock c where
  clear hp a ha hn := by
    rcases List.mem_append.mp ha with ha | ha
    · exact h.clear hp a ha hn
    · rw [List.mem_singleton.mp ha] at hn
      exact absurd hn (hb hp)
  inTime := h.inTime
  before := h.before
  clearThen w hv a ha hn := by
    rcases List.mem_append.mp ha with ha | ha
    · exact h.clearThen w hv a ha hn
    · rw [List.mem_singleton.mp ha] at hn
      exact absurd hn (hb (Call.pending_of_verified hv))
  instant := h.instant

namespace AuthState

theorem setCall_calls_some {s : AuthState} {i j : Nat} {c d : Call}
    (h : (s.setCall i (some c)).calls j = some d) :
    (j = i ∧ d = c) ∨ (j ≠ i ∧ s.calls j = some d) := by
  by_cases hj : j = i
  · subst hj
    refine Or.inl ⟨rfl, ?_⟩
    simp only [setCall, Function.update_self, Option.some.injEq] at h
    exact h.symm
  · refine Or.inr ⟨hj, ?_⟩
    simpa only [setCall, Function.update_of_ne hj] using h

theorem setCall_calls_none {s : AuthState} {i j : Nat} {d : Call}
    (h : (s.setCall i none).calls j = some d) : s.calls j = some d := by
  by_cases hj : j = i
  · subst hj
    simp [setCall] at h
  · simpa only [setCall, Function.update_of_ne hj] using h

end AuthState

namespace Inv

variable {s : AuthState}

/-- One call moves, and is alone with its nonce. -/
theorem setCall (h : Inv s) {i : Nat} {c : Call} (hc : CallOk s.accepted s.wall s.clock c)
    (halone : c.Pending → ∀ j d, j ≠ i → s.calls j = some d → d.Pending →
      d.envelope.nonce ≠ c.envelope.nonce) : Inv (s.setCall i (some c)) where
  inTime := h.inTime
  kept := h.kept
  calls j d hj := by
    rcases AuthState.setCall_calls_some hj with ⟨-, rfl⟩ | ⟨-, hj⟩
    · exact hc
    · exact h.calls j d hj
  apart j k d d' hj hk hd hd' hn := by
    rcases AuthState.setCall_calls_some hj with ⟨rfl, rfl⟩ | ⟨hji, hj'⟩
    · rcases AuthState.setCall_calls_some hk with ⟨rfl, rfl⟩ | ⟨hki, hk'⟩
      · rfl
      · exact absurd hn.symm (halone hd k d' hki hk' hd')
    · rcases AuthState.setCall_calls_some hk with ⟨rfl, rfl⟩ | ⟨-, hk'⟩
      · exact absurd hn (halone hd' j d hji hj' hd)
      · exact h.apart j k d d' hj' hk' hd hd' hn
  once := h.once

theorem endCall (h : Inv s) (i : Nat) : Inv (s.setCall i none) where
  inTime := h.inTime
  kept := h.kept
  calls j d hj := h.calls j d (AuthState.setCall_calls_none hj)
  apart j k d d' hj hk := h.apart j k d d' (AuthState.setCall_calls_none hj)
    (AuthState.setCall_calls_none hk)
  once := h.once

/-- A pending call that goes on stays alone with its nonce. -/
theorem alone (h : Inv s) {i : Nat} {c : Call} (hi : s.calls i = some c) (hc : c.Pending) :
    ∀ j d, j ≠ i → s.calls j = some d → d.Pending → d.envelope.nonce ≠ c.envelope.nonce :=
  fun j d hne hj hd hn => hne (h.apart j i d c hj hi hd hc hn)

/-- A nonce that is not in the map was accepted long ago, if ever. -/
theorem past_of_notMem (h : Inv s) {nonce : String} (hnonce : nonce ∉ s.nonceCache)
    {a : Acceptance} (ha : a ∈ s.accepted) (hn : a.envelope.nonce = nonce) : a.Past s.wall := by
  rcases h.kept a ha with hpast | ⟨instant, hlookup, -, -⟩
  · exact hpast
  · rw [hn, AList.lookup_eq_none.mpr hnonce] at hlookup
    cases hlookup

theorem advance (h : Inv s) {ns : Nat} {wall : TimeOfDay} (hw : s.wall.ns + ns ≤ wall.ns) :
    Inv { s with clock := s.clock + ns, wall := wall } where
  inTime := h.inTime
  kept a ha := by
    rcases h.kept a ha with hpast | ⟨instant, hlookup, hle, hsum⟩
    · exact Or.inl (hpast.mono (show s.wall.ns ≤ wall.ns by omega))
    · exact Or.inr ⟨instant, hlookup, by simp only; omega, by simp only; omega⟩
  calls i c hi := (h.calls i c hi).advance hw
  apart := h.apart
  once := h.once

theorem lookUp (h : Inv s) {i : Nat} {e : IntentEnvelope} (hnonce : e.nonce ∉ s.nonceCache)
    (halone : ∀ j c, s.calls j = some c → c.Pending → c.envelope.nonce ≠ e.nonce) :
    Inv (s.setCall i (some ⟨e, .unseen⟩)) := by
  refine h.setCall ?_ fun _ j d _ => halone j d
  exact
    { clear := fun _ a ha hn => h.past_of_notMem hnonce ha hn
      inTime := fun w hw => nomatch hw
      before := fun w hw => nomatch hw
      clearThen := fun w hw => nomatch hw
      instant := fun w m hm => nomatch hm }

theorem checkTime (h : Inv s) {i : Nat} {e : IntentEnvelope}
    (hi : s.calls i = some ⟨e, .unseen⟩) (hin : InTime e s.wall) :
    Inv (s.setCall i (some ⟨e, .timely s.wall⟩)) := by
  have hclear := (h.calls i _ hi).clear (Call.pending_unseen e)
  have halone := h.alone hi (Call.pending_unseen e)
  refine h.setCall ?_ fun _ => halone
  exact
    { clear := fun _ => hclear
      inTime := fun w hw => by cases hw; exact hin
      before := fun w hw => by cases hw; exact le_rfl
      clearThen := fun w hw => by cases hw; exact hclear
      instant := fun w m hm => nomatch hm }

theorem stamp (h : Inv s) {i : Nat} {e : IntentEnvelope} {verified : TimeOfDay}
    (hi : s.calls i = some ⟨e, .timely verified⟩) :
    Inv (s.setCall i (some ⟨e, .stamped verified s.clock⟩)) := by
  have hcall := h.calls i _ hi
  have hpending : (Call.mk e (.timely verified)).Pending := Call.pending_of_verified rfl
  have halone := h.alone hi hpending
  refine h.setCall ?_ fun _ => halone
  exact
    { clear := fun _ => hcall.clear hpending
      inTime := fun w hw => by cases hw; exact hcall.inTime _ rfl
      before := fun w hw => by cases hw; exact hcall.before _ rfl
      clearThen := fun w hw => by cases hw; exact hcall.clearThen _ rfl
      instant := fun w m hm => by
        cases hm
        have hle := hcall.before _ rfl
        exact ⟨le_rfl, by omega⟩ }

/-- The step that matters: what was accepted under the nonce before is past, both at the time
the call was let through and now. -/
theorem record (h : Inv s) {i : Nat} {e : IntentEnvelope} {verified : TimeOfDay} {instant : Nat}
    (hi : s.calls i = some ⟨e, .stamped verified instant⟩) :
    Inv
      { s.setCall i (some ⟨e, .sweeping 0⟩) with
        nonceCache := s.nonceCache.insert e.nonce instant
        accepted := s.accepted ++ [⟨e, verified, s.wall⟩] } := by
  have hcall := h.calls i _ hi
  have hpending : (Call.mk e (.stamped verified instant)).Pending := Call.pending_of_verified rfl
  have hclear := hcall.clear hpending
  have halone := h.alone hi hpending
  obtain ⟨hle, hsum⟩ := hcall.instant _ _ rfl
  refine ⟨?_, ?_, ?_, ?_, ?_⟩
  · intro a ha
    rcases List.mem_append.mp ha with ha | ha
    · exact h.inTime a ha
    · rw [List.mem_singleton.mp ha]
      exact hcall.inTime _ rfl
  · intro a ha
    rcases List.mem_append.mp ha with ha | ha
    · by_cases hn : a.envelope.nonce = e.nonce
      · exact Or.inl (hclear a ha hn)
      · rcases h.kept a ha with hpast | ⟨m, hlookup, hm⟩
        · exact Or.inl hpast
        · exact Or.inr ⟨m, (AList.lookup_insert_ne hn).trans hlookup, hm⟩
    · rw [List.mem_singleton.mp ha]
      exact Or.inr ⟨instant, AList.lookup_insert _, hle, hsum⟩
  · intro j c hj
    rcases AuthState.setCall_calls_some hj with ⟨-, rfl⟩ | ⟨hne, hj'⟩
    · exact CallOk.sweeping _ _ _ _ _
    · exact (h.calls j c hj').concat fun hp => (halone j c hne hj' hp).symm
  · intro j k c d hj hk hc hd hn
    rcases AuthState.setCall_calls_some hj with ⟨-, rfl⟩ | ⟨-, hj'⟩
    · exact absurd rfl (hc 0)
    · rcases AuthState.setCall_calls_some hk with ⟨-, rfl⟩ | ⟨-, hk'⟩
      · exact absurd rfl (hd 0)
      · exact h.apart j k c d hj' hk' hc hd hn
  · refine List.pairwise_append.mpr ⟨h.once, List.pairwise_singleton _ _, ?_⟩
    intro a ha b hb hn
    rw [List.mem_singleton.mp hb] at hn ⊢
    exact ⟨(hcall.clearThen _ rfl a ha hn).not_couldPass (h.inTime a ha),
      (hclear a ha hn).not_couldPass (h.inTime a ha)⟩

/-- What a clean-up drops has been in the map for sixty seconds. -/
theorem sweep (h : Inv s) {D : Shards} {i shard : Nat} {e : IntentEnvelope} :
    Inv
      { s.setCall i (some ⟨e, .sweeping (shard + 1)⟩) with
        nonceCache := s.nonceCache.retain (AuthState.keeps D shard s.clock) } := by
  have hcall : Inv (s.setCall i (some ⟨e, .sweeping (shard + 1)⟩)) :=
    h.setCall (CallOk.sweeping _ _ _ _ _) fun hp => absurd rfl (hp _)
  refine ⟨hcall.inTime, ?_, hcall.calls, hcall.apart, hcall.once⟩
  intro a ha
  rcases hcall.kept a ha with hpast | ⟨m, hlookup, hle, hsum⟩
  · exact Or.inl hpast
  · by_cases hkeep : AuthState.keeps D shard s.clock a.envelope.nonce m = true
    · exact Or.inr ⟨m, AList.mem_lookup_retain.mpr ⟨hlookup, hkeep⟩, hle, hsum⟩
    · have hold : nonceTtl ≤ s.clock - m := by
        simp only [AuthState.keeps, fresh, Bool.or_eq_true, decide_eq_true_eq, not_or] at hkeep
        exact Nat.le_of_not_lt hkeep.2
      have helapsed : a.verified.ns + nonceTtl ≤ s.wall.ns :=
        le_trans (Nat.add_le_add_left hold _) hsum
      exact Or.inl (Acceptance.past_of_elapsed (h.inTime a ha) helapsed)

end Inv

/-! ## Orderly runs -/

namespace AuthState

variable (V : Ed25519) (H : Sha256) (D : Shards)

theorem inv_start (wall : TimeOfDay) (clock : Nat) : Inv (start wall clock) where
  inTime a ha := absurd ha List.not_mem_nil
  kept a ha := absurd ha List.not_mem_nil
  calls i c hi := by cases hi
  apart i j c d hi := by cases hi
  once := List.Pairwise.nil

theorem inv_step {s : AuthState} {a : Act} (h : Inv s) (ha : s.Orderly a) :
    Inv (step V H D s a) := by
  have hmoves := step_moves V H D s a
  generalize step V H D s a = s' at hmoves ⊢
  cases hmoves with
  | still => exact h
  | advance ns wall => exact h.advance ha
  | lookUp hnonce => exact h.lookUp hnonce ha
  | ended i => exact h.endCall i
  | checkTime hi ht => exact h.checkTime hi (inTime_of_ne ht (ha _ hi))
  | stamp hi => exact h.stamp hi
  | record hi => exact h.record hi
  | sweep hi => exact h.sweep

/-- In an orderly run no nonce is accepted again while its envelope could still pass. -/
theorem once_along {wall : TimeOfDay} {clock : Nat} {acts : List Act}
    (h : Run.Along (step V H D) Orderly (start wall clock) acts) :
    Once (Run.after (step V H D) (start wall clock) acts).accepted :=
  (Run.invariant (step V H D) (fun _ _ => inv_step V H D) (inv_start wall clock) h).once

/-! ## A call on its own -/

variable {e : IntentEnvelope} {wall wall' : TimeOfDay} {clock : Nat}

/-- The steps of one call, from the first check to the last shard. -/
def alone (i : Nat) (e : IntentEnvelope) : List Act :=
  .lookUp i e :: .checkTime i :: .stamp i :: .record i :: List.replicate (D.count + 1) (.sweep i)

/-- The shards from `shard` on are cleaned up, one after the other. -/
theorem after_sweeps {i shard rest : Nat} {s : AuthState}
    (hi : s.calls i = some ⟨e, .sweeping shard⟩) (hrest : shard + rest = D.count) :
    Run.after (step V H D) s (List.replicate (rest + 1) (.sweep i)) =
      { s.setCall i none with
        nonceCache := s.nonceCache.retain fun nonce ts =>
          decide ((D.shard nonce).val < shard) || fresh s.clock ts } := by
  induction rest generalizing s shard with
  | zero =>
      have hall : (s.nonceCache.retain fun nonce ts =>
          decide ((D.shard nonce).val < shard) || fresh s.clock ts) = s.nonceCache := by
        apply AList.retain_eq_self
        intro nonce ts
        have hlt := (D.shard nonce).isLt
        simp only [Bool.or_eq_true, decide_eq_true_eq]
        omega
      rw [hall]
      have hdone : ¬ shard < D.count := by omega
      simp [step, hi, hdone, setCall]
  | succ rest ih =>
      have hshard : shard < D.count := by omega
      have hstep : step V H D s (.sweep i) =
          { s.setCall i (some ⟨e, .sweeping (shard + 1)⟩) with
            nonceCache := s.nonceCache.retain (keeps D shard s.clock) } := by
        simp [step, hi, hshard]
      have hnext : (step V H D s (.sweep i)).calls i = some ⟨e, .sweeping (shard + 1)⟩ := by
        rw [hstep]
        simp [setCall]
      rw [List.replicate_succ, Run.after_cons, ih hnext (by omega), hstep]
      simp only [setCall, Function.update_idem, AList.retain_retain]
      congr 2
      funext nonce ts
      simp only [keeps]
      grind

/-- Without a call there is nothing to go on with. -/
theorem after_idle {i : Nat} {s : AuthState} {acts : List Act} (hi : s.calls i = none)
    (hacts : ∀ a ∈ acts, a = .checkTime i ∨ a = .stamp i ∨ a = .record i ∨ a = .sweep i) :
    Run.after (step V H D) s acts = s := by
  induction acts with
  | nil => rfl
  | cons a acts ih =>
      have hstill : step V H D s a = s := by
        rcases hacts a List.mem_cons_self with rfl | rfl | rfl | rfl <;> simp [step, hi]
      rw [Run.after_cons, hstill]
      exact ih fun b hb => hacts b (List.mem_cons_of_mem _ hb)

theorem mem_sweeps {i n : Nat} {a : Act} (h : a ∈ List.replicate n (.sweep i)) :
    a = .checkTime i ∨ a = .stamp i ∨ a = .record i ∨ a = .sweep i :=
  Or.inr (Or.inr (Or.inr (List.eq_of_mem_replicate h)))

/-- A call that is let through, with nothing beside it. -/
theorem after_alone_ok {i : Nat} {s : AuthState} (hi : s.calls i = none)
    (hu : s.Unseen V H e = true)
    (ht : e.verifyTimestamp s.wall.timestampMillis maxSkewMs = true) :
    Run.after (step V H D) s (alone D i e) =
      { s.setCall i none with
        nonceCache := (s.nonceCache.insert e.nonce s.clock).retain fun _ ts => fresh s.clock ts
        accepted := s.accepted ++ [⟨e, s.wall, s.wall⟩] } := by
  have hrecord : Run.after (step V H D) s [.lookUp i e, .checkTime i, .stamp i, .record i] =
      { s.setCall i (some ⟨e, .sweeping 0⟩) with
        nonceCache := s.nonceCache.insert e.nonce s.clock
        accepted := s.accepted ++ [⟨e, s.wall, s.wall⟩] } := by
    simp only [Run.after_cons, Run.after_nil, step, setCall, hi, hu, ht, Option.isNone_none,
      Bool.and_self, if_true, Function.update_self, Function.update_idem]
  let checks : List Act := [.lookUp i e, .checkTime i, .stamp i, .record i]
  have hsplit : alone D i e = checks ++ List.replicate (D.count + 1) (.sweep i) := rfl
  rw [hsplit, Run.after_append, hrecord,
    after_sweeps V H D (e := e) (by simp [setCall]) (Nat.zero_add _)]
  simp [setCall]

/-- A call that a check ends, with nothing beside it. -/
theorem after_alone_refused {i : Nat} {s : AuthState} (hi : s.calls i = none)
    (h : s.Unseen V H e = true → e.verifyTimestamp s.wall.timestampMillis maxSkewMs = false) :
    Run.after (step V H D) s (alone D i e) = s := by
  have hback : (s.setCall i (some ⟨e, .unseen⟩)).setCall i none = s := by
    simp only [setCall, Function.update_idem, ← hi, Function.update_eq_self]
  by_cases hu : s.Unseen V H e = true
  · have hlook : step V H D s (.lookUp i e) = s.setCall i (some ⟨e, .unseen⟩) := by
      simp only [step, hi, hu, Option.isNone_none, Bool.and_self, if_true]
    have hended : step V H D (s.setCall i (some ⟨e, .unseen⟩)) (.checkTime i) = s := by
      rw [← hback]
      simp [step, setCall, h hu]
    rw [alone, Run.after_cons, hlook, Run.after_cons, hended]
    apply after_idle V H D hi
    intro a ha
    rcases List.mem_cons.mp ha with rfl | ha
    · exact Or.inr (Or.inl rfl)
    · rcases List.mem_cons.mp ha with rfl | ha
      · exact Or.inr (Or.inr (Or.inl rfl))
      · exact mem_sweeps ha
  · have hstill : step V H D s (.lookUp i e) = s := by
      simp only [step, hu, Bool.and_false, Bool.false_eq_true, if_false]
    rw [alone, Run.after_cons, hstill]
    apply after_idle V H D hi
    intro a ha
    rcases List.mem_cons.mp ha with rfl | ha
    · exact Or.inl rfl
    · rcases List.mem_cons.mp ha with rfl | ha
      · exact Or.inr (Or.inl rfl)
      · rcases List.mem_cons.mp ha with rfl | ha
        · exact Or.inr (Or.inr (Or.inl rfl))
        · exact mem_sweeps ha

/-- A call nothing runs beside does what `validate_integrity` does. -/
theorem after_alone {i : Nat} {s : AuthState} (hi : s.calls i = none) :
    let r : ClockReadings := ⟨s.wall.timestampMillis, s.clock, s.clock⟩
    let s' := Run.after (step V H D) s (alone D i e)
    s'.nonceCache = (validateIntegrity V H s.nonceCache e r).1 ∧
      s'.accepted = match (validateIntegrity V H s.nonceCache e r).2 with
        | .ok () => s.accepted ++ [⟨e, s.wall, s.wall⟩]
        | .error _ => s.accepted := by
  intro r s'
  by_cases hpass : s.Unseen V H e = true ∧
      e.verifyTimestamp s.wall.timestampMillis maxSkewMs = true
  · obtain ⟨hu, ht⟩ := hpass
    have hs' : s' = _ := after_alone_ok V H D hi hu ht
    simp only [Unseen, Bool.and_eq_true, Bool.not_eq_true', decide_eq_true_eq] at hu
    obtain ⟨⟨hv, hs⟩, hc⟩ := hu
    rw [hs']
    simp [validateIntegrity, hv, hs, hc, ht, r]
  · have hs' : s' = s := by
      refine after_alone_refused V H D hi fun hu => ?_
      rw [← Bool.not_eq_true]
      exact fun ht => hpass ⟨hu, ht⟩
    cases hres : (validateIntegrity V H s.nonceCache e r).2 with
    | ok _ =>
        obtain ⟨hv, hs, hc, ht⟩ := (validateIntegrity_iff V H).mp hres
        exact absurd ⟨by simp [Unseen, hv, hs, hc], ht⟩ hpass
    | error message =>
        rw [hs', validateIntegrity_error V H hres]
        exact ⟨rfl, rfl⟩

/-! ## Runs that go wrong -/

/-- Two calls with one envelope, the second looking its nonce up before the first records it. -/
def race (e : IntentEnvelope) : List Act :=
  [.lookUp 0 e, .lookUp 1 e, .checkTime 0, .stamp 0, .record 0, .checkTime 1, .stamp 1, .record 1]

/-- A call, sixty seconds, its clean-up, and a second call with the envelope. -/
def forgotten (e : IntentEnvelope) (wall' : TimeOfDay) : List Act :=
  [.lookUp 0 e, .checkTime 0, .stamp 0, .record 0, .advance nonceTtl wall', .sweep 0,
    .lookUp 1 e, .checkTime 1, .stamp 1, .record 1]

/-- Accepted twice, and still in time. -/
theorem not_once_of_twice {a b : Acceptance} (hn : a.envelope.nonce = b.envelope.nonce)
    (h : a.CouldPass b.verified) : ¬ Once [a, b] := by
  intro honce
  exact (List.rel_of_pairwise_cons honce (List.mem_singleton_self b) hn).1 h

theorem accepted_forgotten (hv : verifyEnvelope V H e = true) (hs : shortNonce e.nonce = false)
    (ht : e.verifyTimestamp wall.timestampMillis maxSkewMs = true)
    (ht' : e.verifyTimestamp wall'.timestampMillis maxSkewMs = true)
    (hshard : (D.shard e.nonce).val = 0) :
    (Run.after (step V H D) (start wall clock) (forgotten e wall')).accepted =
      [⟨e, wall, wall⟩, ⟨e, wall', wall'⟩] := by
  have hcount : 0 < D.count := (D.shard e.nonce).pos
  have hgone : e.nonce ∉ (AList.insert e.nonce clock (∅ : NonceCache)).retain
      (keeps D 0 (clock + nonceTtl)) := by
    rw [← AList.lookup_eq_none, AList.lookup_retain, AList.lookup_insert]
    simp [keeps, fresh, hshard]
  rw [AList.insert_empty] at hgone
  simp [forgotten, step, start, setCall, Unseen, hv, hs, ht, ht', hcount, hgone]

theorem accepted_race (hv : verifyEnvelope V H e = true) (hs : shortNonce e.nonce = false)
    (ht : e.verifyTimestamp wall.timestampMillis maxSkewMs = true) :
    (Run.after (step V H D) (start wall clock) (race e)).accepted =
      [⟨e, wall, wall⟩, ⟨e, wall, wall⟩] := by
  simp [race, step, start, setCall, Unseen, hv, hs, ht]

/-- Once its nonce is forgotten an envelope passes again, if the clean-up came at the far edge
of its window or the time of day was set back. -/
theorem not_once_forgotten (hv : verifyEnvelope V H e = true) (hs : shortNonce e.nonce = false)
    (ht : e.verifyTimestamp wall.timestampMillis maxSkewMs = true)
    (ht' : e.verifyTimestamp wall'.timestampMillis maxSkewMs = true)
    (hshard : (D.shard e.nonce).val = 0) :
    ¬ Once (Run.after (step V H D) (start wall clock) (forgotten e wall')).accepted := by
  rw [accepted_forgotten V H D hv hs ht ht' hshard]
  exact not_once_of_twice rfl ht'

/-- One call of an envelope that is not at the edge of its window is orderly. -/
theorem along_call (hv : verifyEnvelope V H e = true) (hs : shortNonce e.nonce = false)
    (hedge : e.timestampUnixMs ≠ wall.timestampMillis + maxSkewMs) :
    Run.Along (step V H D) Orderly (start wall clock)
      [.lookUp 0 e, .checkTime 0, .stamp 0, .record 0] := by
  simp [Run.Along, Orderly, step, start, setCall, Unseen, hv, hs, hedge]

namespace Raced

open CognosAgentService (Forged.content Forged.ed25519 Forged.sha Forged.intruderKey
  Forged.forgedSignature Forged.verify_forged)

/-- An envelope with a good signature. -/
def envelope : IntentEnvelope :=
  Forged.content.carrying ⟨"ed25519", Forged.intruderKey, Forged.forgedSignature⟩

/-- Five milliseconds after the envelope's time. -/
def now : TimeOfDay := ⟨1767225600005 * 1000000, by decide⟩

def shards : Shards := ⟨1, fun _ => 0⟩

theorem verify_envelope : verifyEnvelope Forged.ed25519 Forged.sha envelope = true :=
  (verifyEnvelope_iff _ _).mpr
    ⟨_, rfl, rfl, Forged.verify_forged⟩

theorem long_nonce : shortNonce envelope.nonce = false :=
  CognosAgentService.Forged.admits_content.nonce

theorem in_time : envelope.verifyTimestamp now.timestampMillis maxSkewMs = true := by
  decide +kernel

end Raced

/-- Both calls of the race succeed. -/
theorem not_once_race :
    ¬ Once (Run.after (step CognosAgentService.Forged.ed25519 CognosAgentService.Forged.sha
      Raced.shards) (start Raced.now 0) (race Raced.envelope)).accepted := by
  rw [accepted_race _ _ _ Raced.verify_envelope Raced.long_nonce Raced.in_time]
  exact not_once_of_twice rfl Raced.in_time

/-- One call of the envelope is an orderly run. -/
theorem once_along_call :
    Once (Run.after (step CognosAgentService.Forged.ed25519 CognosAgentService.Forged.sha
      Raced.shards) (start Raced.now 0)
      [.lookUp 0 Raced.envelope, .checkTime 0, .stamp 0, .record 0]).accepted :=
  once_along _ _ _ (along_call _ _ _ Raced.verify_envelope Raced.long_nonce (by decide +kernel))

end AuthState

end AgentIpc

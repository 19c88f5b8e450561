/-
# `Cognos.AgentIpc.TimestampWindow` — the window around now

`verify_timestamp` of `envelope.rs`, for every time stamp an envelope can carry.  In a build
that checks its arithmetic an overflow is a panic; in a release build the numbers wrap.

    checkedSub_eq, checkedAbs_eq     when the arithmetic stays within an `i64`
    verifyTimestamp_eq_iff           when the release build tells the window
    verifyTimestamp_exact_iff        when every build does
-/
import Mathlib
import Cognos.AgentIpc.Auth
import Cognos.AgentIpc.HashCoverage

namespace AgentIpc

/-! ## Checked arithmetic -/

/-- An integer as an `i64`, if it is one. -/
def checkedI64 (n : Int) : Option Int64 :=
  if -2 ^ 63 ≤ n ∧ n < 2 ^ 63 then some (Int64.ofInt n) else none

/-- `a - b` where overflow is checked; `none` is the panic. -/
def checkedSub (a b : Int64) : Option Int64 := checkedI64 (a.toInt - b.toInt)

/-- `a.abs()` where overflow is checked. -/
def checkedAbs (a : Int64) : Option Int64 := checkedI64 |a.toInt|

theorem checkedI64_eq {n : Int} {a : Int64} (h : checkedI64 n = some a) : a.toInt = n := by
  unfold checkedI64 at h
  split at h
  next hrange =>
    obtain rfl := Option.some.inj h
    exact Int64.toInt_ofInt_of_le hrange.1 hrange.2
  next => cases h

theorem isSome_checkedI64 (n : Int) :
    (checkedI64 n).isSome = true ↔ -2 ^ 63 ≤ n ∧ n < 2 ^ 63 := by
  unfold checkedI64
  split
  next hrange => exact iff_of_true rfl hrange
  next hrange => exact iff_of_false Bool.false_ne_true hrange

namespace IntentEnvelope

/-- `verify_timestamp` in a build with overflow checks; `none` is a panic. -/
def verifyTimestampChecked (e : IntentEnvelope) (now maxSkewMs : Int64) : Option Bool := do
  let difference ← checkedSub now e.timestampUnixMs
  let delta ← checkedAbs difference
  return decide (delta ≤ maxSkewMs)

/-- How far the time stamp is from the time `now`. -/
def distance (e : IntentEnvelope) (now : Int64) : Int := |now.toInt - e.timestampUnixMs.toInt|

variable {e : IntentEnvelope} {now skew : Int64}

/-- Without overflow the answer is that of the integers. -/
theorem verifyTimestampChecked_of_lt (h : e.distance now < 2 ^ 63) :
    e.verifyTimestampChecked now skew = some (decide (e.distance now ≤ skew.toInt)) := by
  have habs := abs_lt.mp h
  obtain ⟨d, hd⟩ := Option.isSome_iff_exists.mp
    ((isSome_checkedI64 (now.toInt - e.timestampUnixMs.toInt)).mpr ⟨by omega, habs.2⟩)
  have hdiff := checkedI64_eq hd
  have hnonneg : 0 ≤ |d.toInt| := abs_nonneg _
  have hlt : |d.toInt| < 2 ^ 63 := by
    rw [hdiff]
    exact h
  obtain ⟨a, ha⟩ := Option.isSome_iff_exists.mp
    ((isSome_checkedI64 |d.toInt|).mpr ⟨by omega, hlt⟩)
  have hdelta := checkedI64_eq ha
  rw [hdiff] at hdelta
  have hle : a ≤ skew ↔ e.distance now ≤ skew.toInt := by
    rw [Int64.le_iff_toInt_le, hdelta]
    rfl
  rw [verifyTimestampChecked, checkedSub, hd]
  show (checkedI64 |d.toInt|).bind _ = _
  rw [ha]
  exact congrArg some (decide_eq_decide.mpr hle)

/-- A difference that is no `i64`, or the least one, is a panic. -/
theorem verifyTimestampChecked_of_le (h : 2 ^ 63 ≤ e.distance now) :
    e.verifyTimestampChecked now skew = none := by
  rw [verifyTimestampChecked]
  cases hd : checkedSub now e.timestampUnixMs with
  | none => rfl
  | some d =>
      have hdiff := checkedI64_eq hd
      have hnone : checkedAbs d = none := by
        rw [← Option.not_isSome_iff_eq_none, checkedAbs, isSome_checkedI64, hdiff]
        intro hrange
        exact absurd hrange.2 (not_lt.mpr h)
      show (checkedAbs d).bind _ = none
      rw [hnone]
      rfl

/-! ## The release build -/

/-- A difference that wraps around. -/
theorem toInt_sub_eq (a b : Int64) : (a - b).toInt =
    if a.toInt - b.toInt < -2 ^ 63 then a.toInt - b.toInt + 2 ^ 64
    else if a.toInt - b.toInt < 2 ^ 63 then a.toInt - b.toInt
    else a.toInt - b.toInt - 2 ^ 64 := by
  have ha := a.toInt_lt
  have ha' := a.le_toInt
  have hb := b.toInt_lt
  have hb' := b.le_toInt
  rw [Int64.toInt_sub, Int.bmod_def]
  split_ifs <;> omega

/-- Its absolute value. -/
theorem toInt_abs_sub (a b : Int64) : (a - b).abs.toInt =
    if |a.toInt - b.toInt| < 2 ^ 63 then |a.toInt - b.toInt|
    else if |a.toInt - b.toInt| = 2 ^ 63 then -2 ^ 63
    else 2 ^ 64 - |a.toInt - b.toInt| := by
  have ha := a.toInt_lt
  have ha' := a.le_toInt
  have hb := b.toInt_lt
  have hb' := b.le_toInt
  rw [toInt_abs, toInt_sub_eq]
  generalize hd : a.toInt - b.toInt = d
  rcases abs_cases d with ⟨habs, hsign⟩ | ⟨habs, hsign⟩
  · rw [habs, if_neg (show ¬ d < -2 ^ 63 by omega)]
    by_cases hlt : d < 2 ^ 63
    · rw [if_pos hlt, if_pos hlt, if_neg (by omega), habs]
    · rw [if_neg hlt, if_neg hlt, abs_of_neg (by omega)]
      split_ifs <;> omega
  · rw [habs]
    by_cases hlt : d < -2 ^ 63
    · rw [if_pos hlt, abs_of_pos (by omega)]
      split_ifs <;> omega
    · rw [if_neg hlt, if_pos (show d < 2 ^ 63 by omega), habs]
      split_ifs <;> omega

/-- The release build is right as long as nothing overflows, and where what wraps around lands
outside of the window. -/
theorem verifyTimestamp_eq_iff (hskew : 0 ≤ skew.toInt) :
    e.verifyTimestamp now skew = decide (e.distance now ≤ skew.toInt) ↔
      e.distance now < 2 ^ 63 ∨
        (e.distance now ≠ 2 ^ 63 ∧ skew.toInt < 2 ^ 64 - e.distance now) := by
  have hsk := skew.toInt_lt
  rw [verifyTimestamp, decide_eq_decide, Int64.le_iff_toInt_le, toInt_abs_sub, ← distance]
  split_ifs with hlt heq
  · exact iff_of_true Iff.rfl (Or.inl hlt)
  · rw [heq]
    omega
  · omega

/-! ## Every build -/

/-- Every build tells, without overflow, whether a time stamp is within the skew exactly when the
stamp is less than `2 ^ 63` milliseconds away. -/
theorem verifyTimestamp_exact_iff (hskew : 0 ≤ skew.toInt) :
    (e.verifyTimestampChecked now skew = some (decide (e.distance now ≤ skew.toInt)) ∧
        e.verifyTimestamp now skew = decide (e.distance now ≤ skew.toInt)) ↔
      e.distance now < 2 ^ 63 := by
  constructor
  · rintro ⟨hchecked, -⟩
    by_contra hle
    rw [verifyTimestampChecked_of_le (not_lt.mp hle)] at hchecked
    cases hchecked
  · intro hlt
    exact ⟨verifyTimestampChecked_of_lt hlt, (verifyTimestamp_eq_iff hskew).mpr (Or.inl hlt)⟩

/-- The message of the planner, stamped at this time. -/
def stamped (ms : Int64) : IntentEnvelope :=
  { between "planner" "memory" [] with timestampUnixMs := ms }

/-- A message of the same second. -/
theorem verifyTimestamp_exact_iff_stamped :
    ((stamped 1767225599000).verifyTimestampChecked 1767225600000 maxSkewMs =
          some (decide ((stamped 1767225599000).distance 1767225600000 ≤ maxSkewMs.toInt)) ∧
        (stamped 1767225599000).verifyTimestamp 1767225600000 maxSkewMs =
          decide ((stamped 1767225599000).distance 1767225600000 ≤ maxSkewMs.toInt)) ↔
      (stamped 1767225599000).distance 1767225600000 < 2 ^ 63 :=
  verifyTimestamp_exact_iff (by decide)

/-- A stamp `2 ^ 63` milliseconds old: the one build panics, the other takes it for a new one. -/
theorem not_verifyTimestamp_exact : ¬ ∀ (e : IntentEnvelope) (now skew : Int64), 0 ≤ skew.toInt →
    e.verifyTimestampChecked now skew = some (decide (e.distance now ≤ skew.toInt)) ∧
      e.verifyTimestamp now skew = decide (e.distance now ≤ skew.toInt) := by
  intro h
  obtain ⟨-, hrelease⟩ := h (stamped (-9223370269629175808)) 1767225600000 maxSkewMs (by decide)
  have hdistance : (stamped (-9223370269629175808)).distance 1767225600000 = 2 ^ 63 := by decide
  have htrue : (stamped (-9223370269629175808)).verifyTimestamp 1767225600000 maxSkewMs = true := by
    decide
  rw [htrue, hdistance] at hrelease
  exact absurd hrelease (by decide)

end IntentEnvelope

/-! ## What gets in -/

variable (V : Ed25519) (H : Sha256)

/-- A release build accepts a signed message that is exactly `2 ^ 63` milliseconds old. -/
theorem validateIntegrity_wrapped {cache : NonceCache} {e : IntentEnvelope} {r : ClockReadings}
    (kp : V.KeyPair) (hnonce : shortNonce e.nonce = false) (hnew : e.nonce ∉ cache)
    (hold : e.distance r.wall = 2 ^ 63) :
    (validateIntegrity V H cache (signEnvelope H kp e) r).2 = .ok () := by
  refine (validateIntegrity_iff V H).mpr
    ⟨verifyEnvelope_signEnvelope V H kp e, hnonce, hnew, ?_⟩
  show decide ((r.wall - e.timestampUnixMs).abs ≤ maxSkewMs) = true
  rw [decide_eq_true_iff, Int64.le_iff_toInt_le, IntentEnvelope.toInt_abs_sub,
    ← IntentEnvelope.distance, hold]
  decide

end AgentIpc

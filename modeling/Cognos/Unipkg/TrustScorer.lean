/-
# `Cognos.Unipkg.TrustScorer` — scoring a package

`trust_scorer.rs` in exact arithmetic, over any ordered field: a package whose hash is not verified
is blocked; any other one has a score, made of what eight factors add to a neutral baseline and
clamped, and a recommendation by thresholds.

    Worse                    worse in every factor, or the same
    factors_antitone         each factor adds no more to what is worse
    recommend_mono           a lower score has no more permissive recommendation
    scorePackage_antitone    so worse packages have lower scores and stricter recommendations

Times are nanoseconds since the epoch; the clock is read once, for both packages.
-/
import Mathlib
import Cognos.Lib.UnitClamp
import Cognos.Hal.AuthorityCompressor

namespace Unipkg

/-! ## Packages -/

/-- The source ecosystem a package comes from. -/
inductive PackageSource
  | flatpak | apt | appImage | snap
deriving DecidableEq

/-- OS-level permissions a package may request. -/
inductive Permission
  | camera | microphone | network | filesystem | location | clipboard | notifications | background
deriving DecidableEq

/-- Everything known about a candidate package. -/
structure PackageCandidate where
  name : String
  version : String
  source : PackageSource
  publisher : String
  signature : Option String
  lastUpdated : Int
  updateFrequencyDays : Nat
  downloadCount : Nat
  reportedIssues : Nat
  permissionsRequested : List Permission
  hash : String
  hashVerified : Bool

/-- Recommendation produced by the trust scorer. -/
inductive Recommendation
  | autoApprove | confirmRecommended | caution | block
deriving DecidableEq

structure TrustScore (K : Type) where
  score : K
  reasoning : List String
  recommendation : Recommendation

/-! ## The scorer -/

/-- `{:?}` of a source. -/
def PackageSource.debug : PackageSource → String
  | flatpak => "Flatpak"
  | apt => "Apt"
  | appImage => "AppImage"
  | snap => "Snap"

/-- The sources that are an established, audited ecosystem. -/
def PackageSource.established : PackageSource → Bool
  | flatpak | apt => true
  | appImage | snap => false

/-- `TimeDelta::num_days` of a duration in nanoseconds. -/
def numDays (age : Int) : Int := (Hal.numSeconds age).tdiv 86400

section

variable {K : Type} [Field K] [LinearOrder K]

/-- What a factor adds to the score, and the reasons it gives. -/
abbrev Factor (K : Type) := K × List String

/-- A factor that counts only where something is so. -/
def Factor.when (p : Bool) (f : Factor K) : Factor K := if p then f else (0, [])

namespace PackageCandidate

variable (c : PackageCandidate) (now : Int)

def signatureFactor : Factor K :=
  if c.signature.isSome then (0.30, ["Valid cryptographic signature from a known publisher."])
  else (-0.20, ["No cryptographic signature — cannot verify publisher identity."])

def updateFactor : Factor K :=
  let daysSinceUpdate := numDays (now - c.lastUpdated)
  if daysSinceUpdate ≤ 90 then
    (0.20, ["Updated " ++ toString daysSinceUpdate ++ " days ago — actively maintained."])
  else if 365 < daysSinceUpdate then
    (-0.30, ["Last updated " ++ toString daysSinceUpdate ++
      " days ago — this package may be abandoned."])
  else (0, [])

def downloadFactor : Factor K :=
  .when (10000 < c.downloadCount) (0.15, ["Downloaded " ++ toString c.downloadCount ++
    " times — widely used and community-tested."])

def sourceFactor : Factor K :=
  .when c.source.established (0.10, ["Source is " ++ c.source.debug ++
    " — an established, audited ecosystem."])

def issuesFactor : Factor K :=
  .when (5 < c.reportedIssues) (-0.10, [toString c.reportedIssues ++
    " reported security issues on record."])

def cameraFactor : Factor K :=
  .when (.camera ∈ c.permissionsRequested) (-0.30, ["Requests camera access — confirm this app " ++
    "genuinely needs it (e.g. video calls, photo capture)."])

def microphoneFactor : Factor K :=
  .when (.microphone ∈ c.permissionsRequested) (-0.30, ["Requests microphone access — confirm " ++
    "this app genuinely needs it (e.g. voice calls, recording)."])

def exfiltrationFactor : Factor K :=
  .when (.network ∈ c.permissionsRequested && .filesystem ∈ c.permissionsRequested)
    (-0.20, ["Requests both network and filesystem access simultaneously — this combination can " ++
      "facilitate data exfiltration. Verify the publisher is trustworthy."])

/-- The factors, in the order they are looked at. -/
def factors : List (Factor K) :=
  [c.signatureFactor, c.updateFactor now, c.downloadFactor, c.sourceFactor, c.issuesFactor,
    c.cameraFactor, c.microphoneFactor, c.exfiltrationFactor]

end PackageCandidate

def epsilon : K := 1e-5

/-- The recommendation for a score. -/
def recommend (score : K) : Recommendation :=
  if 0.9 - epsilon ≤ score then .autoApprove
  else if 0.6 - epsilon ≤ score then .confirmRecommended
  else if 0.3 - epsilon ≤ score then .caution
  else .block

/-- Score a package candidate. -/
def scorePackage (candidate : PackageCandidate) (now : Int) : TrustScore K :=
  if candidate.hashVerified then
    let factors : List (Factor K) := candidate.factors now
    let score := unitClamp (0.5 + (factors.map Prod.fst).sum)
    { score, reasoning := factors.flatMap Prod.snd, recommendation := recommend score }
  else
    { score := 0
      reasoning := ["Hash could not be verified against a trusted source — cannot confirm the " ++
        "package has not been tampered with."]
      recommendation := .block }

end

/-! ## Worse packages -/

/-- How much a recommendation lets through. -/
def Recommendation.permissiveness : Recommendation → Nat
  | autoApprove => 3
  | confirmRecommended => 2
  | caution => 1
  | block => 0

/-- The second package is worse in every factor, or the same. -/
structure Worse (a b : PackageCandidate) : Prop where
  signature : b.signature.isSome → a.signature.isSome
  lastUpdated : b.lastUpdated ≤ a.lastUpdated
  downloadCount : b.downloadCount ≤ a.downloadCount
  reportedIssues : a.reportedIssues ≤ b.reportedIssues
  permissionsRequested : a.permissionsRequested ⊆ b.permissionsRequested
  source : b.source = a.source ∨ b.source.established = false
  hashVerified : b.hashVerified → a.hashVerified

section

variable {K : Type} [Field K] [LinearOrder K] [IsStrictOrderedRing K]

theorem numDays_mono {s t : Int} (h : s ≤ t) : numDays s ≤ numDays t :=
  Int.tdiv_le_tdiv (by norm_num) (Int.tdiv_le_tdiv (by norm_num) h)

omit [IsStrictOrderedRing K] in
/-- A bonus that counts for the worse package counts for the other one. -/
theorem bonus_antitone {p q : Bool} {x : K} {rs rs' : List String} (hx : 0 ≤ x)
    (h : q = true → p = true) :
    (Factor.when q (x, rs)).1 ≤ (Factor.when p (x, rs')).1 := by
  cases p with
  | true => cases q <;> simp [Factor.when, hx]
  | false =>
      cases q with
      | true => cases h rfl
      | false => exact le_rfl

omit [IsStrictOrderedRing K] in
/-- A penalty that counts for the better package counts for the other one. -/
theorem penalty_antitone {p q : Bool} {x : K} {rs rs' : List String} (hx : x ≤ 0)
    (h : p = true → q = true) :
    (Factor.when q (x, rs)).1 ≤ (Factor.when p (x, rs')).1 := by
  cases q with
  | true => cases p <;> simp [Factor.when, hx]
  | false =>
      cases p with
      | true => cases h rfl
      | false => exact le_rfl

section

variable {a b : PackageCandidate} (h : Worse a b) (now : Int)

include h

theorem signatureFactor_antitone :
    (b.signatureFactor : Factor K).1 ≤ (a.signatureFactor : Factor K).1 := by
  unfold PackageCandidate.signatureFactor
  split
  · next hb => rw [if_pos (h.signature hb)]
  · split
    · norm_num
    · exact le_rfl

theorem updateFactor_antitone :
    (b.updateFactor now : Factor K).1 ≤ (a.updateFactor now : Factor K).1 := by
  have hdays : numDays (now - a.lastUpdated) ≤ numDays (now - b.lastUpdated) :=
    numDays_mono (by have := h.lastUpdated; omega)
  unfold PackageCandidate.updateFactor
  dsimp only
  split
  · next hb => rw [if_pos (hdays.trans hb)]
  · split
    · split
      · norm_num
      · split
        · exact le_rfl
        · norm_num
    · next hb =>
        split
        · norm_num
        · rw [if_neg (fun ha => hb (ha.trans_le hdays))]

omit [IsStrictOrderedRing K] in
theorem established_of_worse (hb : b.source.established = true) :
    a.source.established = true := by
  rcases h.source with hsame | hother
  · rw [← hsame]
    exact hb
  · rw [hother] at hb
    cases hb

/-- Each factor adds no more to what is worse. -/
theorem factors_antitone :
    ((b.factors now : List (Factor K)).map Prod.fst).sum ≤
      ((a.factors now : List (Factor K)).map Prod.fst).sum := by
  have hmem : ∀ p, p ∈ a.permissionsRequested → p ∈ b.permissionsRequested :=
    fun p hp => h.permissionsRequested hp
  have hsignature := signatureFactor_antitone (K := K) h
  have hupdate := updateFactor_antitone (K := K) h now
  have hdownload : (b.downloadFactor : Factor K).1 ≤ (a.downloadFactor : Factor K).1 :=
    bonus_antitone (by norm_num) (by simpa using fun hb => hb.trans_le h.downloadCount)
  have hsource : (b.sourceFactor : Factor K).1 ≤ (a.sourceFactor : Factor K).1 :=
    bonus_antitone (by norm_num) (established_of_worse h)
  have hissues : (b.issuesFactor : Factor K).1 ≤ (a.issuesFactor : Factor K).1 :=
    penalty_antitone (by norm_num) (by simpa using fun ha => ha.trans_le h.reportedIssues)
  have hcamera : (b.cameraFactor : Factor K).1 ≤ (a.cameraFactor : Factor K).1 :=
    penalty_antitone (by norm_num) (by simpa using hmem _)
  have hmicrophone : (b.microphoneFactor : Factor K).1 ≤ (a.microphoneFactor : Factor K).1 :=
    penalty_antitone (by norm_num) (by simpa using hmem _)
  have hexfiltration : (b.exfiltrationFactor : Factor K).1 ≤ (a.exfiltrationFactor : Factor K).1 :=
    penalty_antitone (by norm_num) (by simpa using fun hn hf => ⟨hmem _ hn, hmem _ hf⟩)
  simp only [PackageCandidate.factors, List.map_cons, List.map_nil, List.sum_cons, List.sum_nil]
  linarith

end

omit [IsStrictOrderedRing K] in
/-- A lower score has no more permissive recommendation. -/
theorem recommend_mono {x y : K} (h : x ≤ y) :
    (recommend x).permissiveness ≤ (recommend y).permissiveness := by
  unfold recommend
  split
  · next h9 => rw [if_pos (h9.trans h)]
  · split
    · next h6 =>
        rw [if_pos (h6.trans h)]
        split <;> decide
    · split
      · next h3 =>
          rw [if_pos (h3.trans h)]
          split_ifs <;> decide
      · exact Nat.zero_le _

omit [IsStrictOrderedRing K] in
theorem scorePackage_of_unverified {c : PackageCandidate} (h : c.hashVerified = false) (now : Int) :
    (scorePackage c now : TrustScore K).score = 0 ∧
      (scorePackage c now : TrustScore K).recommendation = .block := by
  rw [scorePackage, h]
  exact ⟨rfl, rfl⟩

theorem score_nonneg (c : PackageCandidate) (now : Int) :
    0 ≤ (scorePackage c now : TrustScore K).score := by
  rw [scorePackage]
  split
  · exact (unitClamp_mem _).1
  · exact le_rfl

/-- Scored at the same time, a worse package has no higher score and no more permissive
recommendation; and one whose hash is not verified is blocked. -/
theorem scorePackage_antitone (a b : PackageCandidate) (now : Int) :
    (Worse a b →
      (scorePackage b now : TrustScore K).score ≤ (scorePackage a now : TrustScore K).score ∧
      (scorePackage b now : TrustScore K).recommendation.permissiveness ≤
        (scorePackage a now : TrustScore K).recommendation.permissiveness) ∧
      (a.hashVerified = false → (scorePackage a now : TrustScore K).recommendation = .block) := by
  refine ⟨fun h => ?_, fun ha => (scorePackage_of_unverified ha now).2⟩
  cases hb : b.hashVerified with
  | false =>
      obtain ⟨hscore, hblock⟩ := scorePackage_of_unverified (K := K) hb now
      rw [hscore, hblock]
      exact ⟨score_nonneg a now, Nat.zero_le _⟩
  | true =>
      have ha : a.hashVerified = true := h.hashVerified hb
      have hscore : unitClamp (0.5 + ((b.factors now : List (Factor K)).map Prod.fst).sum) ≤
          unitClamp (0.5 + ((a.factors now : List (Factor K)).map Prod.fst).sum) :=
        unitClamp_mono (by linarith [factors_antitone (K := K) h now])
      rw [scorePackage, scorePackage, hb, ha]
      exact ⟨hscore, recommend_mono hscore⟩

end

/-- A package from a known publisher, as the tests have it. -/
def baseCandidate : PackageCandidate where
  name := "test-app"
  version := "1.0.0"
  source := .flatpak
  publisher := "trusted-publisher"
  signature := some "valid-sig"
  lastUpdated := -2592000000000000
  updateFrequencyDays := 30
  downloadCount := 50000
  reportedIssues := 0
  permissionsRequested := []
  hash := "abc123"
  hashVerified := true

/-- The same package without a signature, abandoned, and with a camera. -/
def worseCandidate : PackageCandidate :=
  { baseCandidate with
    signature := none
    lastUpdated := -34560000000000000
    permissionsRequested := [.camera] }

theorem worse_candidate : Worse baseCandidate worseCandidate where
  signature := nofun
  lastUpdated := by decide
  downloadCount := le_rfl
  reportedIssues := le_rfl
  permissionsRequested := List.nil_subset _
  source := Or.inl rfl
  hashVerified := id

theorem scorePackage_antitone_base :
    ((scorePackage worseCandidate 0 : TrustScore ℚ).score ≤
          (scorePackage baseCandidate 0 : TrustScore ℚ).score ∧
        (scorePackage worseCandidate 0 : TrustScore ℚ).recommendation.permissiveness ≤
          (scorePackage baseCandidate 0 : TrustScore ℚ).recommendation.permissiveness) ∧
      (scorePackage { baseCandidate with hashVerified := false } 0 : TrustScore ℚ).recommendation =
        .block ∧
      (scorePackage baseCandidate 0 : TrustScore ℚ).recommendation = .autoApprove ∧
      (scorePackage worseCandidate 0 : TrustScore ℚ).recommendation = .block := by
  have hbase : (baseCandidate.factors 0 : List (Factor ℚ)).map Prod.fst =
      [0.30, 0.20, 0.15, 0.10, 0, 0, 0, 0] := rfl
  have hworse : (worseCandidate.factors 0 : List (Factor ℚ)).map Prod.fst =
      [-0.20, -0.30, 0.15, 0.10, 0, -0.30, 0, 0] := rfl
  refine ⟨(scorePackage_antitone baseCandidate worseCandidate 0).1 worse_candidate,
    (scorePackage_antitone { baseCandidate with hashVerified := false } worseCandidate 0).2 rfl,
    ?_, ?_⟩
  · show recommend (unitClamp (0.5 + (List.map Prod.fst (baseCandidate.factors 0)).sum)) = _
    rw [hbase]
    norm_num [recommend, unitClamp, epsilon]
  · show recommend (unitClamp (0.5 + (List.map Prod.fst (worseCandidate.factors 0)).sum)) = _
    rw [hworse]
    norm_num [recommend, unitClamp, epsilon]

end Unipkg

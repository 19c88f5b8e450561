/-
# `Cognos.Hal.HomeConfinement` — targets outside the home directory

The v0 rules block a target outside the user's home, which they tell by its text: a path is
outside when it starts with `/` and not with the text of `$HOME`.  Where a path leads is
another matter.  A `..` behind the text of `$HOME` leads out again, a sibling directory may
have a name that begins like the last one of `$HOME`, and `~/` is never looked at.

    computeHalLevelV0_block   what the rules block
    confined_iff              the targets outside the home directory that they block
    outside_cases             how the other ones are spelled
-/
import Mathlib
import Cognos.Hal.Gate
import Cognos.Lib.LexPath

namespace Hal

open LexPath (Below normalise components enter)

/-! ## What is blocked -/

/-- An AI-generated binary is to be run. -/
def RunsGenerated (req : GateRequest) : Prop :=
  req.action = "execute_binary" ∧ req.isAiGenerated = true

/-- What the rules block for a known agent: a change of HAL, an AI-generated binary, and a path
that is outside by its text. -/
theorem computeHalLevelV0_block {home : String} {req : GateRequest}
    (hk : isKnownAgent req.agent = true) :
    (computeHalLevelV0 home req).1 = .block ↔
      req.action = "modify_hal" ∨ RunsGenerated req ∨ isOutsideUserHome home req.target = true := by
  unfold computeHalLevelV0 RunsGenerated
  rw [if_neg (not_not.mpr hk)]
  split
  · next hm => exact iff_of_true rfl (Or.inl hm)
  · next hm =>
      rw [or_iff_right hm]
      split
      · next hx => exact iff_of_true rfl (Or.inl hx)
      · next hx =>
          rw [or_iff_right hx]
          split
          · next ho => exact iff_of_true rfl ho
          · next ho =>
              refine iff_of_false ?_ ho
              split
              · exact fun h => nomatch h
              · split
                · exact fun h => nomatch h
                · exact fun h => nomatch h

theorem startsWith_tilde_of_root {target : String} (hroot : Text.startsWith target "/" = true) :
    Text.startsWith target "~/" = false := by
  obtain ⟨post, hpost⟩ := Text.startsWith_iff.mp hroot
  rw [← Bool.not_eq_true, Text.startsWith_iff]
  rintro ⟨post', hpost'⟩
  rw [← hpost] at hpost'
  exact absurd (List.cons.inj hpost').1 (by decide)

theorem isOutsideUserHome_iff {home target : String} :
    isOutsideUserHome home target = true ↔
      Text.startsWith target "/" = true ∧ Text.startsWith target home = false := by
  unfold isOutsideUserHome
  simp only [Bool.and_eq_true, bne_iff_ne, ne_eq, Bool.not_eq_true']
  constructor
  · rintro ⟨⟨⟨-, hhome⟩, -⟩, hroot⟩
    exact ⟨hroot, hhome⟩
  · rintro ⟨hroot, hhome⟩
    refine ⟨⟨⟨?_, hhome⟩, startsWith_tilde_of_root hroot⟩, hroot⟩
    rintro rfl
    obtain ⟨post, hpost⟩ := Text.startsWith_iff.mp hroot
    cases hpost

/-! ## Where a target leads -/

/-- The path a target stands for, `~/` standing for the home directory. -/
def expandHome (home target : String) : String :=
  match Text.stripPrefix? target "~/" with
  | some rest => home ++ "/" ++ rest
  | none => target

/-- The target is a path, and it leads to a place that is neither the home directory nor below. -/
def Outside (home target : String) : Prop :=
  (normalise (expandHome home target)).isSome = true ∧ ¬ Below home (expandHome home target)

instance (home target : String) : Decidable (Outside home target) := by
  unfold Outside
  infer_instance

/-- A target outside the home directory is blocked. -/
def Confined (home : String) (req : GateRequest) : Prop :=
  Outside home req.target → (computeHalLevelV0 home req).1 = .block

/-- A place outside is told by the text of its path. -/
def SpelledOutside (home target : String) : Prop :=
  Text.startsWith target "~/" = false ∧ Text.startsWith target home = false

theorem startsWith_root_of_normalise {path : String} (h : (normalise path).isSome = true) :
    Text.startsWith path "/" = true := by
  unfold normalise at h
  split at h
  · next hroot =>
      obtain ⟨rest, hrest⟩ := List.head?_eq_some_iff.mp hroot
      exact Text.startsWith_iff.mpr ⟨rest, hrest.symm⟩
  · cases h

theorem expandHome_of_not_tilde {home target : String}
    (htilde : Text.startsWith target "~/" = false) : expandHome home target = target := by
  unfold expandHome Text.stripPrefix?
  rw [htilde]
  rfl

theorem isOutsideUserHome_of_outside {home target : String} (h : Outside home target) :
    isOutsideUserHome home target = true ↔ SpelledOutside home target := by
  rw [isOutsideUserHome_iff]
  refine and_congr_left fun _ => ?_
  constructor
  · exact startsWith_tilde_of_root
  · intro htilde
    rw [Outside, expandHome_of_not_tilde htilde] at h
    exact startsWith_root_of_normalise h.1

/-- A target outside the home directory is blocked exactly when its text tells, or the request is
blocked for another reason. -/
theorem confined_iff (home : String) (req : GateRequest) (hk : isKnownAgent req.agent = true) :
    Confined home req ↔
      (Outside home req.target →
        req.action = "modify_hal" ∨ RunsGenerated req ∨ SpelledOutside home req.target) := by
  refine forall_congr' fun h => ?_
  rw [computeHalLevelV0_block hk, isOutsideUserHome_of_outside h]

/-! ## How the other ones are spelled -/

/-- What stands behind the text of the home directory is in a sibling of it. -/
def Sibling (home rest : String) : Prop :=
  home.toList.getLast? ≠ some '/' ∧ rest.toList.head?.all (· == '/') = false

/-- A target that leads outside though its text does not tell has a `..` in it, or is in a sibling
whose name begins like that of the home directory. -/
theorem outside_cases {home target : String} (hhome : home.toList.head? = some '/')
    (h : Outside home target) (hspelled : ¬ SpelledOutside home target) :
    (∃ rest, target = "~/" ++ rest ∧ ".." ∈ components rest) ∨
      ∃ rest, target = home ++ rest ∧ (".." ∈ components rest ∨ Sibling home rest) := by
  cases htilde : Text.startsWith target "~/" with
  | true =>
      obtain ⟨post, hpost⟩ := Text.startsWith_iff.mp htilde
      have htarget : target = "~/" ++ String.ofList post := by
        rw [← String.toList_inj, String.toList_append, ← hpost]
        exact congrArg ("~/".toList ++ ·) String.toList_ofList.symm
      refine Or.inl ⟨String.ofList post, htarget, ?_⟩
      by_contra hdots
      have hexpand : expandHome home target = home ++ ("/" ++ String.ofList post) := by
        unfold expandHome Text.stripPrefix?
        rw [if_pos htilde, ← hpost, List.drop_left]
        exact String.append_assoc
      apply h.2
      rw [hexpand]
      refine LexPath.below_append hhome (fun hm => hdots ?_) (Or.inr ?_)
      · have hroot := LexPath.components_append "" (String.ofList post)
        rw [String.empty_append] at hroot
        rw [hroot] at hm
        exact (List.mem_append.mp hm).resolve_left (by decide)
      · rw [String.toList_append]
        rfl
  | false =>
      have htext : Text.startsWith target home = true :=
        Bool.not_eq_false _ ▸ fun hf => hspelled ⟨htilde, hf⟩
      obtain ⟨post, hpost⟩ := Text.startsWith_iff.mp htext
      have htarget : target = home ++ String.ofList post := by
        rw [← String.toList_inj, String.toList_append, String.toList_ofList, hpost]
      refine Or.inr ⟨String.ofList post, htarget, ?_⟩
      by_contra hnot
      obtain ⟨hdots, hsibling⟩ := not_or.mp hnot
      apply h.2
      rw [expandHome_of_not_tilde htilde, htarget]
      refine LexPath.below_append hhome hdots ?_
      by_contra hslash
      obtain ⟨hlast, hnext⟩ := not_or.mp hslash
      exact hsibling ⟨hlast, Bool.not_eq_true _ ▸ hnext⟩

/-! The three ways out. -/

/-- A file agent opens a file. -/
def opens (target : String) : GateRequest :=
  { requestId := .nil, agent := "file", action := "open_file", target, parameters := .null,
    isAiGenerated := false, intentId := none }

theorem confined_passwd :
    Confined "/home/ana" (opens "/etc/passwd") ↔
      (Outside "/home/ana" "/etc/passwd" → "open_file" = "modify_hal" ∨
        RunsGenerated (opens "/etc/passwd") ∨ SpelledOutside "/home/ana" "/etc/passwd") :=
  confined_iff "/home/ana" (opens "/etc/passwd") (by decide)

/-- Over `..`, into a sibling, and over `..` from `~/`. -/
theorem not_confined :
    ¬ Confined "/home/ana" (opens "/home/ana/../../etc/passwd") ∧
      ¬ Confined "/home/ana" (opens "/home/anabel/diary") ∧
      ¬ Confined "/home/ana" (opens "~/../../etc/passwd") := by
  refine ⟨fun h => ?_, fun h => ?_, fun h => ?_⟩
  · exact absurd (h (by decide)) (by decide)
  · exact absurd (h (by decide)) (by decide)
  · exact absurd (h (by decide)) (by decide)

end Hal

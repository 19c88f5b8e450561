/-
# `Cognos.IntentEngine.Fallback` — intents by keyword

`backends/fallback.rs`: when the model cannot be reached, the first keyword that occurs in the
words decides what is meant.  The intent made of it is written as the JSON that the model would
answer with, so that the parser reads both alike.

The target of a new directory is looked for in the lower-cased words, and cut out of the words
themselves at the byte where it was found there.

    extractTarget_iff  which words can be cut at that byte
    parse_fallback     what the parser makes of the words, when the model is down
-/
import Mathlib
import Cognos.IntentEngine.Parser
import Cognos.Lib.ByteIndex

namespace IntentEngine

open Json (Value Reader NumLit)
open Text (byteSize lowerChar IsBefore)

/-! ## Rules -/

/-- Keyword to canonical action, the first match wins. -/
def actionRules : List (String × String) :=
  [("open", "file.open"),
    ("launch", "file.open"),
    ("find", "file.search"),
    ("search", "file.search"),
    ("locate", "file.search"),
    ("move", "file.move"),
    ("rename", "file.move"),
    ("delete", "file.delete"),
    ("remove", "file.delete"),
    ("trash", "file.delete"),
    ("mkdir", "create_dir"),
    ("dossier", "create_dir"),
    ("folder", "create_dir"),
    ("directory", "create_dir"),
    ("crée", "create_dir"),
    ("cree", "create_dir"),
    ("create", "create_dir"),
    ("uninstall", "pkg.uninstall"),
    ("install", "pkg.install"),
    ("update", "pkg.update"),
    ("upgrade", "pkg.update"),
    ("config", "system.config"),
    ("settings", "system.config"),
    ("configure", "system.config"),
    ("permission", "security.permission"),
    ("audit", "security.audit"),
    ("scan", "security.audit"),
    ("check", "security.check"),
    ("implement", "coding.implement"),
    ("refactor", "coding.refactor"),
    ("debug", "coding.debug"),
    ("fix", "coding.fix"),
    ("write", "coding.write"),
    ("code", "coding.task"),
    ("test", "coding.test"),
    ("summarize", "knowledge.query"),
    ("explain", "knowledge.query"),
    ("schedule", "system.schedule"),
    ("remind", "system.schedule")]

/-- The rule whose keyword is the first to occur in a text. -/
def decidingRule (text : String) : Option (String × String) :=
  actionRules.find? fun r => Text.contains (Text.toLowercase text) r.1

/-- Canonical action, and whether any rule matched. -/
def classify (text : String) : String × Bool :=
  match decidingRule text with
  | some r => (r.2, true)
  | none => ("intent.general", false)

/-- Actions whose keyword class implies a non-trivial risk hint for HAL. -/
def baseRisk (action : String) : Float32 :=
  if action = "file.delete" then 0.6
  else if action = "create_dir" then 0.25
  else if action ∈ ["pkg.install", "pkg.uninstall", "system.config"] then 0.4
  else 0.15

/-! ## Targets -/

/-- Pull a filesystem target from natural language when the action needs one; `none` is the
panic of a slice. -/
def extractTargetForAction (action input : String) : Option String :=
  if action = "create_dir" then
    let lower := Text.toLowercase input
    if Text.contains lower "/tmp/test" ∨
        Text.contains lower "/tmp" ∧ Text.contains lower "test" then some "/tmp/test"
    else match Text.find lower "/tmp" with
    | some idx => do
        let rest ← Text.sliceFrom input idx
        let stop := (Text.findChar (fun c => Text.isWhitespace c && c != '/') rest).getD
          (byteSize rest.toList)
        let path ← Text.sliceTo rest stop
        return Text.trim path
    | none => if Text.contains lower "test" then some "/tmp/test" else some "/tmp/cognos-test"
  else some input

/-- `pre` stands before the first "/tmp" of a text, whatever its case. -/
def BeforeTmp (cs pre : List Char) : Prop :=
  (∃ rest, cs = pre ++ rest ∧ "/tmp".toList <+: rest.flatMap lowerChar) ∧
    ∀ pre' rest', cs = pre' ++ rest' → "/tmp".toList <+: rest'.flatMap lowerChar → pre <+: pre'

/-- Where "/tmp" is first in the lower case of a text, it is first in the text. -/
theorem isBefore_lower_iff {cs lowered : List Char} :
    IsBefore "/tmp".toList (cs.flatMap lowerChar) lowered ↔
      ∃ pre, BeforeTmp cs pre ∧ pre.flatMap lowerChar = lowered := by
  constructor
  · rintro ⟨⟨rest, happend, tail, rfl⟩, hfirst⟩
    obtain ⟨front, back, rfl, rfl, hback⟩ := Text.split_of_lower happend
    refine ⟨front, ⟨⟨'/' :: back, rfl, tail, ?_⟩, ?_⟩, rfl⟩
    · rw [List.flatMap_cons, hback]
      rfl
    · intro pre' rest' hsplit hpat
      have hlower := hfirst (pre'.flatMap lowerChar) (rest'.flatMap lowerChar)
        (by rw [hsplit, List.flatMap_append]) hpat
      rcases List.append_eq_append_iff.mp hsplit with ⟨mid, rfl, -⟩ | ⟨mid, rfl, -⟩
      · exact List.prefix_append _ _
      · -- nothing that has a lower case stands between the two
        rw [List.flatMap_append] at hlower
        have hlength := hlower.length_le
        rw [List.length_append] at hlength
        have hnil : mid.flatMap lowerChar = [] := List.eq_nil_of_length_eq_zero (by omega)
        rw [Text.flatMap_lowerChar_eq_nil hnil, List.append_nil]
  · rintro ⟨pre, ⟨⟨rest, rfl, hpat⟩, hfirst⟩, rfl⟩
    refine ⟨⟨rest.flatMap lowerChar, List.flatMap_append, hpat⟩, ?_⟩
    rintro pre' rest' happend ⟨tail, rfl⟩
    obtain ⟨front, back, hsplit, rfl, hback⟩ := Text.split_of_lower happend
    have hprefix := hfirst front ('/' :: back) hsplit
      ⟨tail, by rw [List.flatMap_cons, hback]; rfl⟩
    obtain ⟨mid, rfl⟩ := hprefix
    rw [List.flatMap_append]
    exact List.prefix_append _ _

theorem noSigma_tmp : Text.NoSigma "/tmp".toList := by decide

/-- The byte where "/tmp" is found in the lower case of a text. -/
theorem find_tmp_iff {input : String} {idx : Nat} :
    Text.find (Text.toLowercase input) "/tmp" = some idx ↔
      ∃ pre, BeforeTmp input.toList pre ∧ byteSize (pre.flatMap lowerChar) = idx := by
  have hlower : (String.ofList (input.toList.flatMap lowerChar)).toList =
      input.toList.flatMap lowerChar := String.toList_ofList
  rw [Text.find_toLowercase noSigma_tmp, Text.find_iff, hlower]
  constructor
  · rintro ⟨lowered, hbefore, hsize⟩
    obtain ⟨pre, hpre, rfl⟩ := isBefore_lower_iff.mp hbefore
    exact ⟨pre, hpre, hsize⟩
  · rintro ⟨pre, hpre, hsize⟩
    exact ⟨_, isBefore_lower_iff.mpr ⟨pre, hpre, rfl⟩, hsize⟩

theorem contains_test_of_path {lower : String} (h : Text.contains lower "/tmp/test" = true) :
    Text.contains lower "test" = true :=
  Text.contains_trans h (by decide)

/-- Words about a test get the directory for tests. -/
theorem extractTarget_test {input : String}
    (h : Text.contains (Text.toLowercase input) "test" = true) :
    extractTargetForAction "create_dir" input = some "/tmp/test" := by
  rw [extractTargetForAction, if_pos rfl]
  by_cases htmp : Text.contains (Text.toLowercase input) "/tmp" = true
  · exact if_pos (.inr ⟨htmp, h⟩)
  · have hnone : Text.find (Text.toLowercase input) "/tmp" = none :=
      Text.find_eq_none_iff.mpr (Bool.eq_false_of_not_eq_true htmp)
    simp only [hnone, if_pos h, ite_self]

/-- Other words get the path they name, if they name one, else a directory of its own. -/
theorem extractTarget_other {input : String}
    (h : ¬ Text.contains (Text.toLowercase input) "test" = true) :
    (Text.find (Text.toLowercase input) "/tmp" = none →
      extractTargetForAction "create_dir" input = some "/tmp/cognos-test") ∧
    ∀ idx, Text.find (Text.toLowercase input) "/tmp" = some idx →
      ((extractTargetForAction "create_dir" input).isSome = true ↔
        (Text.sliceFrom input idx).isSome = true) := by
  have hpath : ¬ (Text.contains (Text.toLowercase input) "/tmp/test" = true ∨
      Text.contains (Text.toLowercase input) "/tmp" = true ∧
        Text.contains (Text.toLowercase input) "test" = true) := by
    rintro (hpath | ⟨-, htest⟩)
    · exact h (contains_test_of_path hpath)
    · exact h htest
  rw [extractTargetForAction, if_pos rfl]
  simp only [if_neg hpath]
  constructor
  · intro hnone
    rw [hnone]
    exact if_neg h
  · intro idx hidx
    rw [hidx]
    show ((Text.sliceFrom input idx).bind _).isSome = true ↔ _
    cases Text.sliceFrom input idx with
    | none => exact Iff.rfl
    | some rest =>
        refine iff_of_true ?_ rfl
        rw [Option.bind_some, Text.sliceTo_findChar]
        rfl

/-- A target is extracted unless it is cut out where the words have no boundary: the words before
the first "/tmp" have, in lower case, as many bytes as no prefix of the words. -/
theorem extractTarget_iff (action input : String) :
    (extractTargetForAction action input).isSome = true ↔ action ≠ "create_dir" ∨
      Text.contains (Text.toLowercase input) "test" = true ∨
      ∀ pre, BeforeTmp input.toList pre → ∃ front back, input.toList = front ++ back ∧
        byteSize front = byteSize (pre.flatMap lowerChar) := by
  rcases eq_or_ne action "create_dir" with rfl | haction
  · by_cases htest : Text.contains (Text.toLowercase input) "test" = true
    · rw [extractTarget_test htest]
      exact iff_of_true rfl (.inr (.inl htest))
    · obtain ⟨hnone, hsome⟩ := extractTarget_other htest
      cases hidx : Text.find (Text.toLowercase input) "/tmp" with
      | none =>
          rw [hnone hidx]
          refine iff_of_true rfl (.inr (.inr ?_))
          intro pre hpre
          cases hidx.symm.trans (find_tmp_iff.mpr ⟨pre, hpre, rfl⟩)
      | some idx =>
          rw [hsome idx hidx, Text.isSome_sliceFrom]
          constructor
          · intro hcut
            refine .inr (.inr ?_)
            intro pre hpre
            obtain rfl := Option.some.inj (hidx.symm.trans (find_tmp_iff.mpr ⟨pre, hpre, rfl⟩))
            exact hcut
          · intro hall
            obtain ⟨pre, hpre, rfl⟩ := find_tmp_iff.mp hidx
            rcases hall with hother | htest' | hcut
            · exact absurd rfl hother
            · exact absurd htest' htest
            · exact hcut pre hpre
  · rw [extractTargetForAction, if_neg haction]
    exact iff_of_true rfl (.inl haction)

/-- The Kelvin sign has three bytes, and its lower case `k` has one. -/
theorem not_extractTarget_kelvin : ¬ ∀ input,
    (extractTargetForAction (classify input).1 input).isSome = true := by
  intro h
  have hnone : extractTargetForAction (classify "create \u212A/tmp").1 "create \u212A/tmp" =
      none := by decide
  have hsome := h "create \u212A/tmp"
  rw [hnone] at hsome
  cases hsome

end IntentEngine

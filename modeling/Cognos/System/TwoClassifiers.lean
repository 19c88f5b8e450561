/-
# `Cognos.System.TwoClassifiers` — the same words, classified twice

The orchestrator and the intent engine each have a table of keywords for when the model cannot be
reached.  In both the first keyword that occurs in the text decides.  The engine's table was put
together from the orchestrator's and from the planner's; a word of the planner alone decides in
the engine and is passed over in the orchestrator.

What decides in one table decides in the other when it stands there behind no word that the first
one has not already passed over, which is a question about the tables alone.

    find?_iff       what a first match is: a match behind no other one
    same_kind_iff   an engine's action on files, or an installation, is the orchestrator's too,
                    but for the words `launch` and `trash`
-/
import Mathlib
import Cognos.Orchestrator.Intent
import Cognos.IntentEngine.Fallback

namespace TwoClassifiers

open IntentEngine (actionRules classify decidingRule)
open Orchestrator (classifyRules classifyIntent)

/-! ## First matches -/

section FirstMatch

variable {α : Type} [DecidableEq α] {p : α → Bool} {rules : List α} {r : α}

/-- The first match is a match behind no other one. -/
theorem find?_iff : rules.find? p = some r ↔
    r ∈ rules ∧ p r = true ∧ ∀ a ∈ rules.takeWhile (· ≠ r), p a = false := by
  induction rules with
  | nil => exact iff_of_false nofun fun h => nomatch h.1
  | cons a rules ih =>
      rw [List.find?_cons]
      cases ha : p a with
      | true =>
          constructor
          · intro h
            obtain rfl := Option.some.inj h
            refine ⟨List.mem_cons_self, ha, ?_⟩
            rw [List.takeWhile_cons_of_neg (by simp)]
            exact fun b hb => nomatch hb
          · rintro ⟨-, -, hearlier⟩
            by_cases heq : a = r
            · rw [heq]
            · rw [List.takeWhile_cons_of_pos (by simpa using heq)] at hearlier
              exact absurd (ha.symm.trans (hearlier a List.mem_cons_self)) nofun
      | false =>
          have hne : p r = true → a ≠ r := by
            rintro hr rfl
            cases ha.symm.trans hr
          rw [ih]
          constructor
          · rintro ⟨hmem, hr, hearlier⟩
            refine ⟨List.mem_cons_of_mem _ hmem, hr, ?_⟩
            rw [List.takeWhile_cons_of_pos (by simpa using hne hr)]
            exact List.forall_mem_cons.mpr ⟨ha, hearlier⟩
          · rintro ⟨hmem, hr, hearlier⟩
            rw [List.takeWhile_cons_of_pos (by simpa using hne hr)] at hearlier
            refine ⟨?_, hr, (List.forall_mem_cons.mp hearlier).2⟩
            rcases List.mem_cons.mp hmem with heq | hmem
            · exact absurd heq.symm (hne hr)
            · exact hmem

end FirstMatch

/-! ## Kinds -/

/-- What is to be done with a file or a package. -/
inductive Kind
  | openFile
  | move
  | delete
  | install
  | uninstall
  deriving DecidableEq

/-- The kind of an action; a file that is renamed is moved. -/
def kindOf (action : String) : Option Kind :=
  if action = "file.open" then some .openFile
  else if action ∈ ["file.move", "file.rename"] then some .move
  else if action = "file.delete" then some .delete
  else if action = "pkg.install" then some .install
  else if action = "pkg.uninstall" then some .uninstall
  else none

/-- Keywords of the planner that the orchestrator does not look for. -/
def plannerWords : List String := ["launch", "trash"]

/-! ## The tables -/

/-- The keywords that are looked for before a rule. -/
def earlier (rules : List (String × String)) (r : String × String) : List String :=
  (rules.takeWhile (· ≠ r)).map Prod.fst

/-- A rule of the engine has one of the same kind in the orchestrator, which is passed over for no
keyword that was not passed over already. -/
def Shared (r : String × String) : Prop :=
  ∃ o ∈ classifyRules, o.1 = r.1 ∧ kindOf o.2 = kindOf r.2 ∧
    ∀ k ∈ earlier classifyRules o, k ∈ earlier actionRules r

/-- All keywords of the orchestrator for the kind of a rule of the engine come before it. -/
def Missing (r : String × String) : Prop :=
  ∀ o ∈ classifyRules, kindOf o.2 = kindOf r.2 → o.1 ∈ earlier actionRules r

instance (r : String × String) : Decidable (Shared r) := List.decidableBEx _ _

instance (r : String × String) : Decidable (Missing r) := List.decidableBAll _ _

/-- Of the keywords for a kind, the planner's are missing in the orchestrator, and `remove`
contains `move`; the others are shared. -/
theorem rules_shared : ∀ r ∈ actionRules, kindOf r.2 ≠ none → kindOf r.2 ≠ some .uninstall →
    if r.1 ∈ plannerWords then Missing r
    else Shared r ∨ ∃ k ∈ earlier actionRules r, Text.contains r.1 k = true := by
  decide

/-! ## The same words -/

section Words

variable {text : String} {r : String × String}

/-- The keyword that decides occurs, and none that is looked for before it. -/
theorem decidingRule_iff : decidingRule text = some r ↔ r ∈ actionRules ∧
    Text.contains (Text.toLowercase text) r.1 = true ∧
    ∀ k ∈ earlier actionRules r, Text.contains (Text.toLowercase text) k = false := by
  rw [decidingRule, find?_iff, earlier, List.forall_mem_map]

theorem classifyIntent_of_first (hmem : r ∈ classifyRules)
    (hoccurs : Text.contains (Text.toLowercase text) r.1 = true)
    (hearlier : ∀ k ∈ earlier classifyRules r, Text.contains (Text.toLowercase text) k = false) :
    classifyIntent text = r.2 := by
  have hfind : classifyRules.find? (fun r => Text.contains (Text.toLowercase text) r.1) = some r :=
    find?_iff.mpr ⟨hmem, hoccurs, List.forall_mem_map.mp hearlier⟩
  simp only [classifyIntent, hfind]

/-- An action of some kind comes from a keyword that occurs. -/
theorem exists_rule_of_kind {kind : Kind} (h : kindOf (classifyIntent text) = some kind) :
    ∃ o ∈ classifyRules, kindOf o.2 = some kind ∧
      Text.contains (Text.toLowercase text) o.1 = true := by
  simp only [classifyIntent] at h
  split at h
  · next o ho =>
      obtain ⟨hmem, hoccurs, -⟩ := find?_iff.mp ho
      exact ⟨o, hmem, h, hoccurs⟩
  · cases h

theorem kind_of_shared (h : decidingRule text = some r) (hshared : Shared r) :
    kindOf (classifyIntent text) = kindOf r.2 := by
  obtain ⟨-, hoccurs, hnone⟩ := decidingRule_iff.mp h
  obtain ⟨o, ho, hsame, hkind, hsub⟩ := hshared
  rw [classifyIntent_of_first ho (hsame ▸ hoccurs) fun k hk => hnone k (hsub k hk), hkind]

theorem kind_of_missing (h : decidingRule text = some r) (hmissing : Missing r) {kind : Kind}
    (hkind : kindOf r.2 = some kind) : kindOf (classifyIntent text) ≠ some kind := by
  intro hsame
  obtain ⟨-, -, hnone⟩ := decidingRule_iff.mp h
  obtain ⟨o, ho, hokind, hoccurs⟩ := exists_rule_of_kind hsame
  cases hoccurs.symm.trans (hnone o.1 (hmissing o ho (hokind.trans hkind.symm)))

/-- Words that the engine classifies as opening, moving, deleting or installing are classified the
same way by the orchestrator exactly where no word of the planner decides. -/
theorem same_kind_iff (text : String) (kind : Kind) (hkind : kindOf (classify text).1 = some kind)
    (hinstalls : kind ≠ .uninstall) :
    kindOf (classifyIntent text) = some kind ↔
      ∀ r, decidingRule text = some r → r.1 ∉ plannerWords := by
  rw [classify] at hkind
  cases hrule : decidingRule text with
  | none =>
      rw [hrule] at hkind
      cases hkind
  | some r =>
      rw [hrule] at hkind
      have hr : kindOf r.2 = some kind := hkind
      obtain ⟨hmem, hoccurs, hnone⟩ := decidingRule_iff.mp hrule
      have htable := rules_shared r hmem (hr ▸ nofun) fun huninstall =>
        hinstalls (Option.some.inj (hr.symm.trans huninstall))
      split_ifs at htable with hplanner
      · exact iff_of_false (kind_of_missing hrule htable hr) fun h => h r rfl hplanner
      · refine iff_of_true ?_ ?_
        · rcases htable with hshared | ⟨k, hk, hcontains⟩
          · rw [kind_of_shared hrule hshared, hr]
          · cases (Text.contains_trans hoccurs hcontains).symm.trans (hnone k hk)
        · intro r' hr'
          obtain rfl := Option.some.inj hr'
          exact hplanner

end Words

theorem same_kind_iff_open : kindOf (classifyIntent "open the report") = some .openFile :=
  (same_kind_iff "open the report" .openFile (by decide) (by decide)).mpr
    (by decide)

/-- The trash is the planner's. -/
theorem not_same_kind_trash : ¬ ∀ text kind, kindOf (classify text).1 = some kind →
    kindOf (classifyIntent text) = some kind := by
  intro h
  have htrash : kindOf (classify "trash the report").1 = some .delete := by decide
  have hgeneral : kindOf (classifyIntent "trash the report") = none := by decide
  cases hgeneral.symm.trans (h "trash the report" .delete htrash)

end TwoClassifiers

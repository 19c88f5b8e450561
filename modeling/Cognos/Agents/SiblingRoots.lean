/-
# `Cognos.Agents.SiblingRoots` — the allowed roots of the file agent, and their siblings

`ValidatedPath` follows a path to where it really leads and lets it through when the text of
this begins with the text of an allowed root.  A root's text ends in the middle of other
names: `/home/anna` is the beginning of `/home/annabel/keys`.

    validated_eq_ok    what is let through
    keptWithin_iff     a request is kept within the roots, unless a root's text goes on in the
                       path with more of the same name, and no other root has the path
    getsOut            next to any root that lies below no other there is a way out
    below_of_within    at or below a root in the text is at or below it in the tree
-/
import Mathlib
import Cognos.Agents.FileAgent
import Cognos.Lib.LexPath

namespace Agents

/-! ## At or below a root -/

/-- The text of what lies below begins so. -/
def asDirectory (root : String) : String :=
  if root.toList.getLast? = some '/' then root else root ++ "/"

/-- The path is the root or lies below it. -/
def Within (root path : String) : Prop :=
  path = root ∨ Text.startsWith path (asDirectory root) = true

instance (root path : String) : Decidable (Within root path) :=
  inferInstanceAs (Decidable (_ ∨ _))

/-- The root's text goes on in the path with more of the same name. -/
def Continued (root path : String) : Prop :=
  root.toList.getLast? ≠ some '/' ∧ ∃ c rest, c ≠ '/' ∧ path.toList = root.toList ++ c :: rest

theorem asDirectory_of_slash {root : String} (h : root.toList.getLast? = some '/') :
    asDirectory root = root := if_pos h

theorem asDirectory_of_name {root : String} (h : root.toList.getLast? ≠ some '/') :
    asDirectory root = root ++ "/" := if_neg h

theorem toList_asDirectory {root : String} (h : root.toList.getLast? ≠ some '/') :
    (asDirectory root).toList = root.toList ++ ['/'] := by
  rw [asDirectory_of_name h, String.toList_append]
  rfl

theorem getLast?_asDirectory (root : String) : (asDirectory root).toList.getLast? = some '/' := by
  by_cases h : root.toList.getLast? = some '/'
  · rw [asDirectory_of_slash h, h]
  · rw [toList_asDirectory h, List.getLast?_concat]

theorem prefix_asDirectory (root : String) : root.toList <+: (asDirectory root).toList := by
  by_cases h : root.toList.getLast? = some '/'
  · rw [asDirectory_of_slash h]
  · rw [toList_asDirectory h]
    exact List.prefix_append _ _

theorem startsWith_iff_begins {path pat : String} :
    Text.startsWith path pat = true ↔ pat.toList <+: path.toList := List.isPrefixOf_iff_prefix

/-- A text that begins with a root is the root, or below it, or goes on with the name. -/
theorem startsWith_root_iff {root path : String} :
    Text.startsWith path root = true ↔ Within root path ∨ Continued root path := by
  rw [startsWith_iff_begins]
  constructor
  · rintro ⟨rest, hrest⟩
    by_cases hdir : root.toList.getLast? = some '/'
    · refine Or.inl (Or.inr ?_)
      rw [asDirectory_of_slash hdir, startsWith_iff_begins]
      exact ⟨rest, hrest⟩
    · cases rest with
      | nil =>
          rw [List.append_nil] at hrest
          exact Or.inl (Or.inl (String.toList_inj.mp hrest.symm))
      | cons c rest =>
          by_cases hc : c = '/'
          · refine Or.inl (Or.inr ?_)
            rw [startsWith_iff_begins, toList_asDirectory hdir]
            refine ⟨rest, ?_⟩
            rw [← hrest, hc, List.append_assoc]
            rfl
          · exact Or.inr ⟨hdir, c, rest, hc, hrest.symm⟩
  · rintro ((rfl | hbelow) | ⟨-, c, rest, -, hpath⟩)
    · exact List.prefix_rfl
    · exact (prefix_asDirectory root).trans (startsWith_iff_begins.mp hbelow)
    · exact ⟨c :: rest, hpath.symm⟩

/-- A directory's text is a path, a separator, and leads where the root leads. -/
theorem exists_asDirectory (root : String) :
    ∃ front, asDirectory root = front ++ "/" ∧
      (LexPath.components front).foldl LexPath.enter [] =
        (LexPath.components root).foldl LexPath.enter [] := by
  by_cases h : root.toList.getLast? = some '/'
  · obtain ⟨front, hfront⟩ := List.getLast?_eq_some_iff.mp h
    have htext : root = String.ofList front ++ "/" ++ "" := by
      rw [String.append_empty, ← String.toList_inj, String.toList_append, String.toList_ofList,
        hfront]
      rfl
    refine ⟨String.ofList front, ?_, ?_⟩
    · rw [asDirectory_of_slash h, htext, String.append_empty]
    · rw [htext, LexPath.components_append, List.foldl_append]
      rfl
  · exact ⟨root, asDirectory_of_name h, rfl⟩

/-- Where a path that has no `..` is within a root, it is at or below it in the tree. -/
theorem below_of_within {root path : String} (hroot : root.toList.head? = some '/')
    (hpath : path.toList.head? = some '/') (hup : ".." ∉ LexPath.components path)
    (h : Within root path) : LexPath.Below root path := by
  rcases h with rfl | hbelow
  · exact LexPath.below_of_components hroot hpath List.not_mem_nil rfl
  · obtain ⟨rest, hrest⟩ := Text.startsWith_iff.mp hbelow
    obtain ⟨front, hfront, hleads⟩ := exists_asDirectory root
    have htext : path = front ++ "/" ++ String.ofList rest := by
      rw [← hfront, ← String.toList_inj, String.toList_append, String.toList_ofList, hrest]
    rw [htext, LexPath.components_append] at hup
    refine LexPath.below_of_components hroot hpath
      (fun hmem => hup (List.mem_append_right _ hmem)) ?_
    rw [htext, LexPath.components_append, List.foldl_append, hleads]

/-! ## What is let through -/

namespace PathWorld

variable (w : PathWorld) (raw : String)

/-- `allowed_roots`. -/
def allowedRoots : List String := w.home :: w.extraRoots

/-- The checks before the roots are looked at. -/
def WellFormed (path : String) : Prop := '\x00' ∉ path.toList ∧ path.toList.length ≤ 4096

instance (path : String) : Decidable (WellFormed path) := inferInstanceAs (Decidable (_ ∧ _))

variable {w raw}

theorem validated_eq_ok {path : String} :
    w.validated raw = .ok path ↔ w.resolve raw = .ok path ∧ WellFormed path ∧
      ∃ root ∈ w.allowedRoots, Text.startsWith path root = true := by
  unfold validated WellFormed
  cases w.resolve raw with
  | error e => simp
  | ok resolved =>
      show (if '\x00' ∈ resolved.toList then _ else _) = _ ↔ _
      by_cases hnull : '\x00' ∈ resolved.toList
      · rw [if_pos hnull]
        constructor
        · intro h
          cases h
        · rintro ⟨h, ⟨hclean, -⟩, -⟩
          cases h
          exact absurd hnull hclean
      · by_cases hlong : 4096 < resolved.toList.length
        · rw [if_neg hnull, if_pos hlong]
          constructor
          · intro h
            cases h
          · rintro ⟨h, ⟨-, hshort⟩, -⟩
            cases h
            exact absurd hlong (not_lt.mpr hshort)
        · rw [if_neg hnull, if_neg hlong]
          by_cases hroot : (w.home :: w.extraRoots).any (Text.startsWith resolved ·) = true
          · rw [if_pos hroot]
            constructor
            · intro h
              cases h
              exact ⟨rfl, ⟨hnull, not_lt.mp hlong⟩, List.any_eq_true.mp hroot⟩
            · rintro ⟨h, -, -⟩
              cases h
              rfl
          · rw [if_neg hroot]
            constructor
            · intro h
              cases h
            · rintro ⟨h, -, hany⟩
              cases h
              exact absurd (List.any_eq_true.mpr hany) hroot

/-! ## Kept within the roots -/

/-- What the request is let through to is an allowed root or below one. -/
def KeptWithin (w : PathWorld) (raw : String) : Prop :=
  ∀ path, w.validated raw = .ok path → ∃ root ∈ w.allowedRoots, Within root path

/-- Where the request leads, a root's text goes on with more of the same name only where another
root has the path. -/
def NamesEnd (w : PathWorld) (raw : String) : Prop :=
  ∀ path, w.resolve raw = .ok path → WellFormed path →
    ∀ root ∈ w.allowedRoots, Continued root path → ∃ other ∈ w.allowedRoots, Within other path

theorem keptWithin_iff (w : PathWorld) (raw : String) : w.KeptWithin raw ↔ w.NamesEnd raw := by
  constructor
  · intro h path hresolve hwell root hroot hcontinued
    refine h path (validated_eq_ok.mpr ⟨hresolve, hwell, root, hroot, ?_⟩)
    exact startsWith_root_iff.mpr (Or.inr hcontinued)
  · intro h path hvalidated
    obtain ⟨hresolve, hwell, root, hroot, hstarts⟩ := validated_eq_ok.mp hvalidated
    rcases startsWith_root_iff.mp hstarts with hwithin | hcontinued
    · exact ⟨root, hroot, hwithin⟩
    · exact h path hresolve hwell root hroot hcontinued

/-- The home of one user, and a path in the home of another. -/
def annabel : PathWorld where
  home := "/home/anna"
  extraRoots := []
  resolve := .ok
  repr := id
  reprList := fun _ => ""

theorem not_keptWithin_annabel : ¬ ∀ (w : PathWorld) (raw : String), w.KeptWithin raw := by
  intro h
  have hvalidated : annabel.validated "/home/annabel/keys" = .ok "/home/annabel/keys" := by
    refine validated_eq_ok.mpr ⟨rfl, by decide, "/home/anna", List.mem_cons_self, by decide⟩
  obtain ⟨root, hroot, hwithin⟩ := h annabel "/home/annabel/keys" _ hvalidated
  cases List.mem_singleton.mp hroot
  exact absurd hwithin (by decide)

/-- Next to a root that lies below no other there is a way out: one more character to its name. -/
theorem getsOut {w : PathWorld} {raw root : String} {c : Char} (hroot : root ∈ w.allowedRoots)
    (htop : ∀ other ∈ w.allowedRoots, ¬ (asDirectory other).toList <+: root.toList) (hc : c ≠ '/')
    (hnew : root.push c ∉ w.allowedRoots) (hwell : WellFormed (root.push c))
    (hleads : w.resolve raw = .ok (root.push c)) : ¬ w.KeptWithin raw := by
  intro hkept
  have hstarts : Text.startsWith (root.push c) root = true := by
    rw [startsWith_iff_begins, String.toList_push]
    exact List.prefix_append _ _
  obtain ⟨other, hother, hwithin⟩ :=
    hkept _ (validated_eq_ok.mpr ⟨hleads, hwell, root, hroot, hstarts⟩)
  rcases hwithin with rfl | hbelow
  · exact hnew hother
  · rw [startsWith_iff_begins, String.toList_push, List.prefix_concat_iff] at hbelow
    rcases hbelow with hall | hprefix
    · have hlast := getLast?_asDirectory other
      rw [hall, List.getLast?_concat] at hlast
      exact hc (Option.some.inj hlast)
    · exact htop other hother hprefix

end PathWorld

end Agents

/-
# `Cognos.Lib.LexPath` — lexical normalisation of paths

An absolute path is the list of its components, with empty components and `.`
dropped and every `..` cancelling the component before it (at the root there is none,
and `..` stays there).  No file system is asked: symbolic links are out of scope.

    below_append    behind the text of a directory, without a `..`, a path leads below it
-/
import Mathlib.Data.List.Infix

namespace LexPath

/-- One component met on the way down; `stack` holds the way, last component first. -/
def enter (stack : List String) (component : String) : List String :=
  if component = "" ∨ component = "." then stack
  else if component = ".." then stack.tail
  else component :: stack

/-- The components of a text, as it is spelled. -/
def components (path : String) : List String :=
  (path.toList.splitOn '/').map String.ofList

/-- The normal form of an absolute path; a relative one has none. -/
def normalise (path : String) : Option (List String) :=
  if path.toList.head? = some '/' then some ((components path).foldl enter []).reverse else none

/-- `path` lies at or below `tree`. -/
def Below (tree path : String) : Prop :=
  ∃ t ∈ normalise tree, ∃ p ∈ normalise path, t <+: p

instance (tree path : String) : Decidable (Below tree path) := by
  unfold Below
  infer_instance

theorem components_append (path rest : String) :
    components (path ++ "/" ++ rest) = components path ++ components rest := by
  unfold components
  rw [String.toList_append, String.toList_append, List.append_assoc,
    show "/".toList ++ rest.toList = '/' :: rest.toList from rfl, List.splitOn_append_cons_self,
    List.map_append]

/-- Without a `..` the way only gets longer. -/
theorem suffix_foldl_enter {cs : List String} (h : ".." ∉ cs) (stack : List String) :
    stack <:+ cs.foldl enter stack := by
  induction cs generalizing stack with
  | nil => exact List.suffix_refl stack
  | cons c cs ih =>
      refine List.IsSuffix.trans ?_ (ih (fun hm => h (List.mem_cons_of_mem c hm)) (enter stack c))
      unfold enter
      split
      · exact List.suffix_refl stack
      · have hc : c ≠ ".." := by
          rintro rfl
          exact h List.mem_cons_self
        rw [if_neg hc]
        exact List.suffix_cons c stack

/-- Components without a `..` lead to a place below. -/
theorem below_of_components {tree path : String} {cs : List String}
    (htree : tree.toList.head? = some '/') (hpath : path.toList.head? = some '/') (h : ".." ∉ cs)
    (hcs : (components path).foldl enter [] = cs.foldl enter ((components tree).foldl enter [])) :
    Below tree path := by
  refine ⟨((components tree).foldl enter []).reverse, if_pos htree,
    ((components path).foldl enter []).reverse, if_pos hpath, ?_⟩
  rw [List.reverse_prefix, hcs]
  exact suffix_foldl_enter h _

/-- A path that goes on behind the text of a directory, from a `/` on and without a `..`, leads to
a place below. -/
theorem below_append {tree rest : String} (htree : tree.toList.head? = some '/')
    (h : ".." ∉ components rest)
    (hslash : tree.toList.getLast? = some '/' ∨ rest.toList.head?.all (· == '/') = true) :
    Below tree (tree ++ rest) := by
  have hpath : (tree ++ rest).toList.head? = some '/' := by
    rw [String.toList_append, List.head?_append, htree]
    rfl
  rcases hslash with hlast | hnext
  · obtain ⟨front, hfront⟩ := List.getLast?_eq_some_iff.mp hlast
    have htext : tree = String.ofList front ++ "/" := by
      rw [← String.toList_inj, String.toList_append, String.toList_ofList, hfront]
      rfl
    refine below_of_components htree hpath h ?_
    have hempty : tree = String.ofList front ++ "/" ++ "" := htext.trans (String.append_empty).symm
    rw [hempty, components_append, List.foldl_append, ← hempty]
    rw [htext, components_append, List.foldl_append]
    rfl
  · cases hrest : rest.toList with
    | nil =>
        have hempty : rest = "" := String.toList_inj.mp hrest
        refine below_of_components htree hpath List.not_mem_nil ?_
        rw [hempty, String.append_empty]
        rfl
    | cons c cs =>
        rw [hrest] at hnext
        have hc : c = '/' := by simpa using hnext
        have htext : rest = "/" ++ String.ofList cs := by
          rw [← String.toList_inj, String.toList_append, hrest, hc]
          exact (congrArg ('/' :: ·) String.toList_ofList).symm
        have hcs : ".." ∉ components (String.ofList cs) := by
          intro hm
          apply h
          have hroot := components_append "" (String.ofList cs)
          rw [String.empty_append] at hroot
          rw [htext, hroot]
          exact List.mem_append_right _ hm
        refine below_of_components htree hpath hcs ?_
        rw [htext, ← String.append_assoc, components_append, List.foldl_append]

example : normalise "/home/../etc//./passwd" = some ["etc", "passwd"] := by decide

end LexPath

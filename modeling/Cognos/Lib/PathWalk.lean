/-
# `Cognos.Lib.PathWalk` — where a path leads in a tree with symbolic links

A layout says what there is under each list of names: a directory, a file, a symbolic link.
A path is walked component by component from the root: a name leads down, `..` leads up, a
link is replaced by its text, and a text that begins with `/` starts again at the root.  At
most `links` links are followed.

    place_prefix_iff   a walk ends at or below a directory exactly when it comes to it and
                       from then on follows no absolute link and takes no `..` there
-/
import Mathlib.Data.List.Infix
import Cognos.Lib.LexPath

namespace PathWalk

/-! ## Trees and walks -/

inductive Node
  | dir
  | file (content : List UInt8)
  | link (target : String)
  | special
  deriving DecidableEq

/-- What there is under a real path: the names from the root on. -/
abbrev Layout := List String → Option Node

/-- A step of a walk: down to a name, up, or back to the root. -/
inductive Move
  | down (name : String)
  | up
  | jump
  deriving DecidableEq

/-- The place after a step. -/
def Move.go (here : List String) : Move → List String
  | .down name => here ++ [name]
  | .up => here.dropLast
  | .jump => []

/-- The place after the steps. -/
def goAll (here : List String) (moves : List Move) : List String := moves.foldl Move.go here

def Absolute (path : String) : Prop := path.toList.head? = some '/'

instance (path : String) : Decidable (Absolute path) := by
  unfold Absolute
  infer_instance

/-- The walk along the components, with what is to be done at a link. -/
def walkWith (lay : Layout) (follow : List String → String → List String → Option (List Move)) :
    List String → List String → Option (List Move)
  | _, [] => some []
  | here, c :: rest =>
      if ¬ (here = [] ∨ lay here = some .dir) then none
      else if c = "" ∨ c = "." then walkWith lay follow here rest
      else if c = ".." then (walkWith lay follow here.dropLast rest).map (Move.up :: ·)
      else
        match lay (here ++ [c]) with
        | none => none
        | some (.link target) => follow here target rest
        | some _ => (walkWith lay follow (here ++ [c]) rest).map (Move.down c :: ·)

/-- The walk along the components, through so many links at most. -/
def walk (lay : Layout) : Nat → List String → List String → Option (List Move)
  | 0 => walkWith lay fun _ _ _ => none
  | links + 1 => walkWith lay fun here target rest =>
      if target = "" then none
      else if Absolute target then
        (walk lay links [] (LexPath.components target ++ rest)).map (Move.jump :: ·)
      else walk lay links here (LexPath.components target ++ rest)

/-- The walk of a path: from the root, and to the working directory first when the path is
relative. -/
def moves (lay : Layout) (links : Nat) (cwd : List String) (path : String) :
    Option (List Move) :=
  if path = "" then none
  else if Absolute path then walk lay links [] (LexPath.components path)
  else walk lay links [] (cwd ++ LexPath.components path)

/-- Where the path leads. -/
def resolve (lay : Layout) (links : Nat) (cwd : List String) (path : String) :
    Option (List String) :=
  (moves lay links cwd path).map (goAll [])

/-! ## Below a directory -/

/-- From `here` on, the walk starts at the root no more and does not go up from `dir`. -/
def Keeps (dir : List String) : List String → List Move → Prop
  | _, [] => True
  | here, m :: moves => m ≠ .jump ∧ ¬ (m = .up ∧ here = dir) ∧ Keeps dir (m.go here) moves

theorem goAll_append (here : List String) (ms ns : List Move) :
    goAll here (ms ++ ns) = goAll (goAll here ms) ns :=
  List.foldl_append

/-- Such a walk stays below. -/
theorem Keeps.prefix_goAll {dir : List String} {ms : List Move} {here : List String}
    (h : Keeps dir here ms) (hhere : dir <+: here) : dir <+: goAll here ms := by
  induction ms generalizing here with
  | nil => exact hhere
  | cons m ms ih =>
      obtain ⟨hjump, hup, hrest⟩ := h
      refine ih hrest ?_
      cases m with
      | down name => exact hhere.trans (List.prefix_append here [name])
      | jump => exact absurd rfl hjump
      | up =>
          have hne : dir ≠ here := fun heq => hup ⟨rfl, heq.symm⟩
          obtain ⟨tail, rfl⟩ := hhere
          have htail : tail ≠ [] := by
            rintro rfl
            exact hne (List.append_nil dir).symm
          show dir <+: (dir ++ tail).dropLast
          rw [List.dropLast_append_of_ne_nil htail]
          exact List.prefix_append dir _

theorem keeps_append {dir : List String} {ms ns : List Move} {here : List String} :
    Keeps dir here (ms ++ ns) ↔ Keeps dir here ms ∧ Keeps dir (goAll here ms) ns := by
  induction ms generalizing here with
  | nil => exact (and_iff_right trivial).symm
  | cons m ms ih =>
      show _ ∧ _ ∧ Keeps dir (m.go here) (ms ++ ns) ↔ (_ ∧ _ ∧ Keeps dir (m.go here) ms) ∧ _
      rw [ih, and_assoc, and_assoc]
      exact Iff.rfl

/-- The walk comes to `dir`, and from then on keeps below it. -/
def Settles (dir : List String) (moves : List Move) : Prop :=
  ∃ before after, moves = before ++ after ∧ goAll [] before = dir ∧ Keeps dir dir after

/-- The way to a place at or below a directory leads through the directory, and its last stay
below begins there. -/
theorem place_prefix_iff (dir : List String) (moves : List Move) :
    dir <+: goAll [] moves ↔ Settles dir moves := by
  constructor
  · induction moves using List.reverseRecOn with
    | nil =>
        intro h
        exact ⟨[], [], rfl, (List.prefix_nil.mp h).symm, trivial⟩
    | append_singleton ms m ih =>
        intro h
        rw [goAll_append] at h
        by_cases hat : goAll [] (ms ++ [m]) = dir
        · exact ⟨ms ++ [m], [], (List.append_nil _).symm, hat, trivial⟩
        · -- one step cannot lead from outside to a place strictly below
          rw [goAll_append] at hat
          have hne : m.go (goAll [] ms) ≠ dir := hat
          have hgo : dir <+: m.go (goAll [] ms) := h
          have hbelow : dir <+: goAll [] ms ∧ m ≠ .jump ∧ ¬ (m = .up ∧ goAll [] ms = dir) := by
            cases m with
            | down name =>
                refine ⟨?_, Move.noConfusion, fun hup => Move.noConfusion hup.1⟩
                rcases List.prefix_concat_iff.mp hgo with heq | hprefix
                · exact absurd heq.symm hne
                · exact hprefix
            | up =>
                have hprefix := hgo.trans (List.dropLast_prefix (goAll [] ms))
                refine ⟨ hprefix, Move.noConfusion, fun hup => hne ?_⟩
                have hlength := hgo.length_le
                rw [← hup.2] at hlength ⊢
                have hempty : goAll [] ms = [] := by
                  rw [Move.go, List.length_dropLast] at hlength
                  exact List.length_eq_zero_iff.mp (by omega)
                rw [hempty]
                rfl
            | jump => exact absurd (List.prefix_nil.mp hgo).symm hne
          obtain ⟨before, after, hms, hbefore, hafter⟩ := ih hbelow.1
          refine ⟨before, after ++ [m], by rw [hms, List.append_assoc], hbefore, ?_⟩
          have hplace : goAll dir after = goAll [] ms := by rw [hms, goAll_append, hbefore]
          refine keeps_append.mpr ⟨hafter, hbelow.2.1, ?_, trivial⟩
          rw [hplace]
          exact hbelow.2.2
  · rintro ⟨before, after, rfl, hbefore, hafter⟩
    rw [goAll_append, hbefore]
    exact hafter.prefix_goAll (List.prefix_refl dir)

theorem resolve_prefix_iff {lay : Layout} {links : Nat} {cwd : List String} {path : String}
    {dir : List String} :
    (∃ place, resolve lay links cwd path = some place ∧ dir <+: place) ↔
      ∃ ms, moves lay links cwd path = some ms ∧ Settles dir ms := by
  unfold resolve
  cases moves lay links cwd path with
  | none => simp
  | some ms => simp [place_prefix_iff]

end PathWalk

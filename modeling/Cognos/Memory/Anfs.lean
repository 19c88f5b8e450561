/-
# `Cognos.Memory.Anfs` — what the overlay file system does with a delete

`fuse_overlay.rs`: a delete is turned into a move to the recycle area, unless the file is below
`/tmp`, tiny, or on the list of files that are not protected.  In the recycle area a file is
named by its last component and the second of the move.

    Recoverable         every file moved is there, under a name of its own
    recoverable_step    a delete keeps it exactly when it is `Clear` of the names given so far
    recoverable_iff     and so does a run: exactly when each of its deletes is clear

A path is the list of its components below the root; no symbolic link is followed.
-/
import Mathlib
import Cognos.Lib.Run

namespace Anfs

/-! ## The overlay -/

/-- The components of an absolute path. -/
abbrev Path := List String

/-- The files there are, with what is in them. -/
abbrev Files := Path → Option (List UInt8)

/-- How a time is written: `%Y%m%d_%H%M%S`, and in RFC 3339. -/
structure Clock (Time : Type) where
  stamp : Time → String
  rfc3339 : Time → String

/-- The mounted file system: where it mirrors from, the user's home, and the files its user does
not want protected. -/
structure AnfsFilesystem where
  realRoot : Path
  home : Path
  noProtect : List Path

/-- The text of a path. -/
def Path.text (p : Path) : String := "/" ++ "/".intercalate p

/-- `Path::file_name`. -/
def Path.fileName (p : Path) : Option String := p.getLast?.filter (· ≠ "..")

def recycleDir : Path := [".cognos", "anfs", "recycle"]

/-- The files, and the lines of the audit log. -/
structure Disk where
  files : Files
  audit : List String

/-- A file is removed, if the system lets it. -/
def Files.removeFile (files : Files) (works : Bool) (p : Path) : Option Files :=
  if works && (files p).isSome then some (Function.update files p none) else none

/-- A file is moved, over whatever is at its new path. -/
def Files.rename (files : Files) (works : Bool) (src dst : Path) : Option Files :=
  if works && (files src).isSome then
    some (Function.update (Function.update files src none) dst (files src))
  else none

/-- The line the overlay audits. -/
def auditLine (ts action target note : String) : String :=
  "\x7b\"ts\":\"" ++ ts ++ "\",\"agent\":\"anfs\",\"action\":\"" ++ action ++
    "\",\"target\":\"" ++ target ++ "\",\"note\":\"" ++ note ++
    "\",\"outcome\":\"success\"\x7d"

/-- A delete, with what the clock says for the name and for the audit line, and whether the
system goes along. -/
structure DeleteCall (Time : Type) where
  path : Path
  now : Time
  auditedAt : Time
  works : Bool

namespace AnfsFilesystem

variable {Time : Type} (K : Clock Time) (a : AnfsFilesystem)

/-- The real path of a path of the mount. -/
def realPath (path : Path) : Path := a.realRoot ++ path

def isProtected (path : Path) : Bool := path ∉ a.noProtect

/-- Where a file is moved: `filename.timestamp` in the recycle area. -/
def recyclePath (real : Path) (now : Time) : Path :=
  a.home ++ recycleDir ++ [(real.fileName.getD "unknown") ++ "." ++ K.stamp now]

/-- Intercept a delete: move to the recycle area instead.  `none` is an error, which changes
nothing. -/
def interceptDelete (d : Disk) (c : DeleteCall Time) : Option Disk :=
  let real := a.realPath c.path
  if ["tmp"] <+: real then (d.files.removeFile c.works real).map ({ d with files := · })
  else if (d.files real).any (·.length < 100) then
    (d.files.removeFile c.works real).map ({ d with files := · })
  else if !a.isProtected real then (d.files.removeFile c.works real).map ({ d with files := · })
  else
    let dest := a.recyclePath K real c.now
    (d.files.rename c.works real dest).map fun files =>
      { files := files
        audit := d.audit ++
          [auditLine (K.rfc3339 c.auditedAt) "delete_intercepted" real.text dest.text] }

/-! ## What is moved -/

/-- The path is not one of those that are removed for good. -/
def Protected (path : Path) : Prop :=
  ¬ ["tmp"] <+: a.realPath path ∧ a.isProtected (a.realPath path) = true

instance (path : Path) : Decidable (a.Protected path) := by
  unfold Protected
  infer_instance

/-- What a delete of a protected path moves: the file, unless it is tiny. -/
def moved (files : Files) (c : DeleteCall Time) : Option (List UInt8) :=
  if c.works then (files (a.realPath c.path)).filter (100 ≤ ·.length) else none

variable {a} {d : Disk} {c : DeleteCall Time}

/-- A delete of a protected path is a removal where the file is tiny, and otherwise a move. -/
theorem files_interceptDelete (hc : a.Protected c.path) :
    (a.interceptDelete K d c).map (·.files) =
      if (d.files (a.realPath c.path)).any (·.length < 100) then
        d.files.removeFile c.works (a.realPath c.path)
      else
        d.files.rename c.works (a.realPath c.path)
          (a.recyclePath K (a.realPath c.path) c.now) := by
  rw [interceptDelete, if_neg hc.1, hc.2]
  split_ifs
  · cases d.files.removeFile c.works (a.realPath c.path) <;> rfl
  · contradiction
  · cases hrename : d.files.rename c.works (a.realPath c.path)
        (a.recyclePath K (a.realPath c.path) c.now) <;> simp [hrename]

theorem files_of_moved (hc : a.Protected c.path) {content : List UInt8}
    (h : a.moved d.files c = some content) :
    (a.interceptDelete K d c).map (·.files) = some
      (Function.update (Function.update d.files (a.realPath c.path) none)
        (a.recyclePath K (a.realPath c.path) c.now) (some content)) := by
  unfold moved at h
  split_ifs at h with hworks
  obtain ⟨hfile, hlarge⟩ := Option.filter_eq_some_iff.mp h
  have htiny : ¬ (decide (content.length < 100) = true) := fun hlt =>
    absurd (of_decide_eq_true hlarge) (not_le.mpr (of_decide_eq_true hlt))
  rw [files_interceptDelete K hc, hfile, Option.any_some, if_neg htiny, Files.rename, hworks, hfile]
  rfl

/-- What a delete changes without a move is a tiny file, which is gone. -/
theorem files_of_not_moved (hc : a.Protected c.path) (h : a.moved d.files c = none) {files : Files}
    (hd : (a.interceptDelete K d c).map (·.files) = some files) :
    ∃ content, content.length < 100 ∧ d.files (a.realPath c.path) = some content ∧
      files = Function.update d.files (a.realPath c.path) none := by
  rw [files_interceptDelete K hc] at hd
  unfold moved at h
  cases hfile : d.files (a.realPath c.path) with
  | none =>
      rw [hfile, Option.any_none, if_neg Bool.false_ne_true, Files.rename, hfile] at hd
      rw [Option.isSome_none, Bool.and_false, if_neg Bool.false_ne_true] at hd
      cases hd
  | some content =>
      rw [hfile, Option.any_some] at hd
      split_ifs at hd with htiny
      · rw [Files.removeFile] at hd
        split_ifs at hd with hworks
        cases hd
        exact ⟨content, of_decide_eq_true htiny, rfl, rfl⟩
      · -- a large file is not moved only where the system refuses
        have hlarge : 100 ≤ content.length := not_lt.mp fun hlt => htiny (decide_eq_true hlt)
        rw [Files.rename] at hd
        split_ifs at hd with hworks
        rw [if_pos (Bool.and_eq_true_iff.mp hworks).1, hfile, Option.filter_some,
          if_pos (decide_eq_true hlarge)] at h
        cases h

/-! ## Runs of deletes -/

/-- A file that was moved to the recycle area, and where to. -/
structure Intercepted where
  content : List UInt8
  entry : Path

/-- The disk, and what was moved so far. -/
structure Recycler where
  disk : Disk
  intercepted : List Intercepted

variable (a)

/-- The entry a delete gives what it moves. -/
def entryOf (c : DeleteCall Time) : Path := a.recyclePath K (a.realPath c.path) c.now

def deleteStep (s : Recycler) (c : DeleteCall Time) : Recycler where
  disk := (a.interceptDelete K s.disk c).getD s.disk
  intercepted := match a.moved s.disk.files c with
    | some content => s.intercepted ++ [⟨content, a.entryOf K c⟩]
    | none => s.intercepted

/-- Every file moved is in the recycle area, under an entry of its own. -/
structure Recoverable (s : Recycler) : Prop where
  present : ∀ i ∈ s.intercepted, s.disk.files i.entry = some i.content
  inside : ∀ i ∈ s.intercepted, a.home ++ recycleDir <+: i.entry
  distinct : s.intercepted.Pairwise (·.entry ≠ ·.entry)

/-- What a delete moves gets an entry that is not taken, and is not itself an entry. -/
def Clear (s : Recycler) (c : DeleteCall Time) : Prop :=
  (a.moved s.disk.files c).isSome → ∀ i ∈ s.intercepted,
    i.entry ≠ a.entryOf K c ∧ i.entry ≠ a.realPath c.path

/-- What was moved is not tiny. -/
def Large (s : Recycler) : Prop := ∀ i ∈ s.intercepted, 100 ≤ i.content.length

variable {a} {s : Recycler}

theorem Large.step (h : Large s) (c : DeleteCall Time) : Large (a.deleteStep K s c) := by
  intro i hi
  simp only [deleteStep] at hi
  cases hmoved : a.moved s.disk.files c with
  | none =>
      rw [hmoved] at hi
      exact h i hi
  | some content =>
      rw [hmoved] at hi
      rcases List.mem_append.mp hi with hi | hi
      · exact h i hi
      · rw [List.mem_singleton.mp hi]
        unfold moved at hmoved
        split_ifs at hmoved
        exact of_decide_eq_true (Option.filter_eq_some_iff.mp hmoved).2

/-- A delete leaves what was moved before as it is, unless it moves onto it or moves it. -/
theorem recoverable_step (h : a.Recoverable s) (hlarge : Large s) {c : DeleteCall Time}
    (hc : a.Protected c.path) :
    a.Recoverable (a.deleteStep K s c) ↔ a.Clear K s c := by
  cases hmoved : a.moved s.disk.files c with
  | none =>
      refine iff_of_true ?_ fun hsome => ?_
      · have hsame : (a.deleteStep K s c).intercepted = s.intercepted := by
          rw [deleteStep, hmoved]
        refine ⟨?_, hsame ▸ h.inside, hsame ▸ h.distinct⟩
        rw [hsame]
        intro i hi
        cases hd : a.interceptDelete K s.disk c with
        | none =>
            rw [deleteStep, hd]
            exact h.present i hi
        | some d =>
            have hmap : (a.interceptDelete K s.disk c).map (·.files) = some d.files := by
              rw [hd]
              rfl
            obtain ⟨content, htiny, hfile, hfiles⟩ := files_of_not_moved K hc hmoved hmap
            have hne : i.entry ≠ a.realPath c.path := by
              intro heq
              have hpresent := h.present i hi
              rw [heq, hfile] at hpresent
              cases hpresent
              exact absurd (hlarge i hi) (not_le.mpr htiny)
            rw [deleteStep, hd, Option.getD_some, hfiles, Function.update_of_ne hne]
            exact h.present i hi
      · rw [hmoved] at hsome
        cases hsome
  | some content =>
      have hfiles : (a.deleteStep K s c).disk.files =
          Function.update (Function.update s.disk.files (a.realPath c.path) none)
            (a.entryOf K c) (some content) := by
        obtain ⟨d, hd, hdfiles⟩ := Option.map_eq_some_iff.mp (files_of_moved K hc hmoved)
        rw [deleteStep, hd]
        exact hdfiles
      have hkept : (a.deleteStep K s c).intercepted =
          s.intercepted ++ [⟨content, a.entryOf K c⟩] := by
        rw [deleteStep, hmoved]
      constructor
      · intro hafter _ i hi
        have hmem : i ∈ (a.deleteStep K s c).intercepted := hkept ▸ List.mem_append_left _ hi
        have hentry : i.entry ≠ a.entryOf K c := by
          have hdistinct := hafter.distinct
          rw [hkept] at hdistinct
          exact (List.pairwise_append.mp hdistinct).2.2 i hi _ (List.mem_singleton_self _)
        refine ⟨hentry, fun hreal => ?_⟩
        have hpresent := hafter.present i hmem
        rw [hfiles, Function.update_of_ne hentry, hreal, Function.update_self] at hpresent
        cases hpresent
      · intro hclear
        have hclear := hclear (by rw [hmoved]; rfl)
        refine ⟨?_, ?_, ?_⟩
        · rw [hkept, hfiles]
          intro i hi
          rcases List.mem_append.mp hi with hi | hi
          · rw [Function.update_of_ne (hclear i hi).1, Function.update_of_ne (hclear i hi).2]
            exact h.present i hi
          · rw [List.mem_singleton.mp hi, Function.update_self]
        · rw [hkept]
          intro i hi
          rcases List.mem_append.mp hi with hi | hi
          · exact h.inside i hi
          · rw [List.mem_singleton.mp hi]
            exact List.prefix_append _ _
        · rw [hkept]
          refine List.pairwise_append.mpr ⟨h.distinct, List.pairwise_singleton _ _, ?_⟩
          intro i hi j hj
          rw [List.mem_singleton.mp hj]
          exact (hclear i hi).1

/-! ## What can be recovered -/

/-- A disk before any delete. -/
def Recycler.start (d : Disk) : Recycler := ⟨d, []⟩

/-- Along deletes of protected paths everything moved can be recovered throughout exactly when
each delete that moves a file gives it an entry not given before, and moves no entry given
before. -/
theorem recoverable_iff (d : Disk) {calls : List (DeleteCall Time)}
    (hcalls : ∀ c ∈ calls, a.Protected c.path) :
    Run.Throughout (a.deleteStep K) a.Recoverable (.start d) calls ↔
      Run.Along (a.deleteStep K) (a.Clear K) (.start d) calls := by
  refine Run.throughout_iff (I := fun s => a.Recoverable s ∧ Large s)
    (D := fun _ c => a.Protected c.path) (a.deleteStep K) (fun s h => h.1) ?_ ?_ ?_ ?_
  · intro s c h hc
    exact recoverable_step K h.1 h.2 hc
  · intro s c h hc hclear
    exact ⟨(recoverable_step K h.1 h.2 hc).mpr hclear, h.2.step K c⟩
  · have hnone : ∀ {p : Intercepted → Prop}, ∀ i ∈ ([] : List Intercepted), p i :=
      fun _ h => absurd h List.not_mem_nil
    exact ⟨⟨hnone, hnone, .nil⟩, hnone⟩
  · exact Run.along_of_forall _ fun c hc _ => hcalls c hc

/-! Two notes of one name, in two directories. -/

/-- A home that is mirrored, and nothing in it that is not protected. -/
def someHome : AnfsFilesystem := ⟨["home", "user"], ["home", "user"], []⟩

def secondsClock : Clock Nat := ⟨fun t => toString t, fun t => toString t⟩

def twoNotes : Disk where
  files p :=
    if p = ["home", "user", "work", "notes.txt"] then some (List.replicate 100 1)
    else if p = ["home", "user", "private", "notes.txt"] then some (List.replicate 100 2)
    else none
  audit := []

/-- Both are deleted, the second at this second. -/
def deletesAt (second : Nat) : List (DeleteCall Nat) :=
  [⟨["work", "notes.txt"], 0, 0, true⟩, ⟨["private", "notes.txt"], second, second, true⟩]

theorem protected_deletesAt (second : Nat) :
    ∀ c ∈ deletesAt second, someHome.Protected c.path := by
  intro c hc
  rcases List.mem_pair.mp hc with rfl | rfl
  · show someHome.Protected ["work", "notes.txt"]
    decide
  · show someHome.Protected ["private", "notes.txt"]
    decide

/-- In two seconds, both can be recovered. -/
theorem recoverable_iff_deletesAt :
    Run.Throughout (someHome.deleteStep secondsClock) someHome.Recoverable (.start twoNotes)
      (deletesAt 1) :=
  (recoverable_iff secondsClock twoNotes (protected_deletesAt 1)).mpr (by
    refine ⟨fun _ i hi => absurd hi List.not_mem_nil, fun _ => ?_, trivial⟩
    decide)

/-- In one second, the second note overwrites the first. -/
theorem not_recoverable_oneSecond : (∀ c ∈ deletesAt 0, someHome.Protected c.path) ∧
    ¬ Run.Throughout (someHome.deleteStep secondsClock) someHome.Recoverable (.start twoNotes)
      (deletesAt 0) := by
  refine ⟨protected_deletesAt 0, fun h => ?_⟩
  have hdistinct := (h _ (List.prefix_refl _)).distinct
  revert hdistinct
  decide

end AnfsFilesystem

end Anfs

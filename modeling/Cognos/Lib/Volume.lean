/-
# `Cognos.Lib.Volume` — files by name, one of them held open

A file that is held open stays what it is when its name changes: what is appended to it
lands under the name it has by then, and nowhere once another file took that name.  The
calls are the ones that succeed; one that fails is one that is not made.

    files_rename_of_ne, files_append_of_ne   what a call leaves alone
    Holds.rename, Holds.append               what becomes of the file held open
-/
import Mathlib.Logic.Function.Basic
import Mathlib.Data.List.Basic

/-- The files of a directory, and the name of the one that is held open. -/
structure Volume (Name : Type) where
  files : Name → Option (List UInt8)
  handle : Option Name

namespace Volume

variable {Name : Type} [DecidableEq Name]

/-- What is at the first name goes to the second, over what is there. -/
def rename (a b : Name) (v : Volume Name) : Volume Name :=
  match v.files a with
  | none => v
  | some bs =>
      { files := Function.update (Function.update v.files a none) b (some bs)
        handle :=
          if v.handle = some a then some b
          else if v.handle = some b then none
          else v.handle }

def remove (a : Name) (v : Volume Name) : Volume Name where
  files := Function.update v.files a none
  handle := if v.handle = some a then none else v.handle

/-- A file is opened for appending, and made if there is none. -/
def openAppend (a : Name) (v : Volume Name) : Volume Name where
  files := Function.update v.files a (some ((v.files a).getD []))
  handle := some a

/-- Bytes appended to the file that is held open. -/
def append (bs : List UInt8) (v : Volume Name) : Volume Name :=
  match v.handle with
  | none => v
  | some a => { v with files := Function.update v.files a ((v.files a).map (· ++ bs)) }

/-- The file that is held open has a name, and this content. -/
structure Holds (v : Volume Name) (a : Name) (bs : List UInt8) : Prop where
  handle : v.handle = some a
  file : v.files a = some bs

variable {v : Volume Name} {a b c : Name} {bs cs : List UInt8}

/-! ## What a call leaves alone -/

theorem rename_of_none (h : v.files a = none) : v.rename a b = v := by
  rw [rename, h]

theorem files_rename_of_ne (hca : c ≠ a) (hcb : c ≠ b) : (v.rename a b).files c = v.files c := by
  rw [rename]
  split
  · rfl
  · show Function.update (Function.update v.files a none) b _ c = _
    rw [Function.update_of_ne hcb, Function.update_of_ne hca]

theorem files_rename_target (v : Volume Name) (a b : Name) :
    (v.rename a b).files b = (v.files a <|> v.files b) := by
  rw [rename]
  split
  next h => rw [h]; rfl
  next h =>
    rw [h]
    exact Function.update_self ..

theorem files_rename_source (hab : a ≠ b) : (v.rename a b).files a = none := by
  rw [rename]
  split
  next h => exact h
  next h =>
    show Function.update (Function.update v.files a none) b _ a = none
    rw [Function.update_of_ne hab, Function.update_self]

theorem files_remove_of_ne (hba : b ≠ a) : (v.remove a).files b = v.files b :=
  Function.update_of_ne hba _ _

theorem files_append (h : v.handle = some a) :
    (v.append bs).files a = (v.files a).map (· ++ bs) := by
  rw [append, h]
  exact Function.update_self ..

theorem files_append_of_ne (h : v.handle ≠ some a) : (v.append bs).files a = v.files a := by
  rw [append]
  split
  · rfl
  · next c hc =>
      refine Function.update_of_ne ?_ _ _
      rintro rfl
      exact h hc

/-! ## The file held open -/

theorem Holds.rename_of_ne (h : v.Holds c bs) (hca : c ≠ a) (hcb : c ≠ b) :
    (v.rename a b).Holds c bs := by
  refine ⟨?_, (files_rename_of_ne hca hcb).trans h.file⟩
  rw [rename]
  split
  · exact h.handle
  · show (if v.handle = some a then _ else _) = _
    rw [h.handle, if_neg (fun heq => hca (Option.some.inj heq)),
      if_neg (fun heq => hcb (Option.some.inj heq))]

theorem Holds.remove_of_ne (h : v.Holds a bs) (hab : a ≠ b) : (v.remove b).Holds a bs := by
  refine ⟨?_, (files_remove_of_ne hab).trans h.file⟩
  show (if v.handle = some b then none else v.handle) = some a
  rw [h.handle, if_neg (fun heq => hab (Option.some.inj heq))]

theorem Holds.rename (h : v.Holds a bs) (b : Name) : (v.rename a b).Holds b bs := by
  rw [Volume.rename, h.file]
  exact ⟨if_pos h.handle, Function.update_self ..⟩

theorem Holds.append (h : v.Holds a bs) (cs : List UInt8) :
    (v.append cs).Holds a (bs ++ cs) := by
  refine ⟨?_, ?_⟩
  · rw [Volume.append, h.handle]
  · rw [files_append h.handle, h.file, Option.map_some]

theorem Holds.append_of_ne (h : v.Holds a bs) (hba : b ≠ a) (cs : List UInt8) :
    (v.append cs).files b = v.files b := by
  refine files_append_of_ne ?_
  rw [h.handle]
  exact fun heq => hba (Option.some.inj heq).symm

theorem holds_openAppend (a : Name) (v : Volume Name) :
    (v.openAppend a).Holds a ((v.files a).getD []) :=
  ⟨rfl, Function.update_self ..⟩

theorem files_openAppend_of_ne (hba : b ≠ a) : (v.openAppend a).files b = v.files b :=
  Function.update_of_ne hba _ _

/-- Nothing appended is nothing done. -/
theorem append_nil (v : Volume Name) : v.append [] = v := by
  rw [append]
  split
  · rfl
  · next a _ =>
      have hfiles : Function.update v.files a ((v.files a).map (· ++ [])) = v.files := by
        rw [Function.update_eq_self_iff]
        cases v.files a with
        | none => rfl
        | some bs => rw [Option.map_some, List.append_nil]
      rw [hfiles]

end Volume

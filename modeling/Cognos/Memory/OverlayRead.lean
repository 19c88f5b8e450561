/-
# `Cognos.Memory.OverlayRead` — reading through the overlay

The `read` of `fuse_overlay.rs` reads the whole file and hands on the slice from the offset
to the offset plus the size, the latter cut off at the end of the file.  A slice that starts
behind its end is a panic; so is a sum that overflows, in a build that checks.  The file it
reads is the one at `ino_to_path`, which is the root of the mount for every inode: where the
root is a directory, no read gets anything.

    readAt_iff         when the handler hands on what lies in the window
    reads_exactly_iff  and when a call of it does, for which files

`usize` has 64 bits, and a vector holds fewer than 2^63 bytes.
-/
import Mathlib
import Cognos.Memory.MetaBatch

namespace Anfs

/-- The contents of a vector. -/
structure ByteVec where
  bytes : List UInt8
  length_lt : bytes.length < 2 ^ 63

inductive Reply
  | data (bytes : List UInt8)
  | error (errno : Int32)
  | panic
  deriving DecidableEq

/-- `data[start..end]`, with `end` the smaller of `start + size` and the length. -/
def readAt (checked : Bool) (data : ByteVec) (offset : Int64) (size : UInt32) : Reply :=
  let start := offset.toUInt64.toNat
  if checked = true ∧ 2 ^ 64 ≤ start + size.toNat then .panic
  else
    let stop := min ((start + size.toNat) % 2 ^ 64) data.bytes.length
    if start ≤ stop then .data ((data.bytes.take stop).drop start) else .panic

/-- Every inode is the root's. -/
def inoToPath (ino : UInt64) (root : String) : String := if ino = 1 then root else root

/-- The text of the root's path joined with nothing, under which a read is counted. -/
def rootKey (root : String) : String :=
  if root = "" ∨ root.toList.getLast? = some '/' then root else root ++ "/"

/-- What `std::fs::read` finds at a path. -/
inductive Node
  | file (data : ByteVec)
  | dir
  | failed (errno : Int32)

/-- Reading a directory. -/
def eisdir : Int32 := 21

/-- A mounted overlay: its root, its session, and what is at the paths of the mount.  A file
other than the root lies below it. -/
structure Mount where
  realRoot : String
  session : String
  node : String → Node
  dir_of_file : ∀ {path data}, node path = .file data → path ≠ realRoot → node realRoot = .dir

/-- `std::fs::read(path)`. -/
def Mount.readFile (m : Mount) (path : String) : Except Int32 ByteVec :=
  match m.node path with
  | .file data => .ok data
  | .dir => .error eisdir
  | .failed errno => .error errno

/-- The handler, at the time `now`. -/
def read (checked : Bool) (m : Mount) (batch : MetaBatch) (now : String) (ino : UInt64)
    (offset : Int64) (size : UInt32) : Reply × MetaBatch :=
  match batch.queueMetaUpdate checked m.session now (rootKey m.realRoot) with
  | none => (.panic, batch)
  | some batch =>
      match m.readFile (inoToPath ino m.realRoot) with
      | .ok data => (readAt checked data offset size, batch)
      | .error e => (.error e, batch)

/-- The bytes from `min(offset, len)` to `min(offset + size, len)`. -/
def window (content : List UInt8) (offset : Int) (size : Nat) : List UInt8 :=
  (content.take (min (offset + size) content.length).toNat).drop
    (min offset content.length).toNat

/-! ## The slice -/

/-- `offset as usize`. -/
theorem toNat_offset (offset : Int64) : (offset.toUInt64.toNat : Int) =
    if 0 ≤ offset.toInt then offset.toInt else offset.toInt + 2 ^ 64 := by
  have hcond := BitVec.toInt_eq_toNat_cond offset.toBitVec
  have hint : offset.toInt = offset.toBitVec.toInt := rfl
  have hnat : offset.toUInt64.toNat = offset.toBitVec.toNat := rfl
  have hlt := offset.toBitVec.isLt
  rw [hnat, hint, hcond]
  split_ifs <;> omega

/-- The handler hands on the window exactly when the offset is in the file, or at its end. -/
theorem readAt_iff (checked : Bool) (data : ByteVec) (offset : Int64) (size : UInt32) :
    readAt checked data offset size = .data (window data.bytes offset.toInt size.toNat) ↔
      0 ≤ offset.toInt ∧ offset.toInt ≤ data.bytes.length := by
  have hlength := data.length_lt
  have hsize := size.toNat_lt
  have hoffset := offset.toInt_lt
  have hlow := offset.le_toInt
  have hstart := toNat_offset offset
  unfold readAt
  dsimp only
  generalize offset.toUInt64.toNat = start at hstart
  by_cases hneg : 0 ≤ offset.toInt
  · rw [if_pos hneg] at hstart
    have hsum : ¬ 2 ^ 64 ≤ start + size.toNat := by omega
    rw [if_neg fun h => hsum h.2, Nat.mod_eq_of_lt (by omega), and_iff_right hneg]
    split
    · next hle =>
      refine iff_of_true ?_ (by omega)
      have hstop : (min (offset.toInt + size.toNat) (data.bytes.length : Int)).toNat =
          min (start + size.toNat) data.bytes.length := by omega
      have hfrom : (min offset.toInt (data.bytes.length : Int)).toNat = start := by omega
      rw [window, hstop, hfrom]
    · next hgt =>
      refine iff_of_false ?_ (by omega)
      intro h
      cases h
  · rw [if_neg hneg] at hstart
    refine iff_of_false ?_ fun h => hneg h.1
    -- a negative offset is a start behind every end
    split
    · intro h
      cases h
    · rw [if_neg (by omega)]
      intro h
      cases h

/-! ## A call -/

/-- Whatever the file at the path holds, a call for it replies with the bytes of the window. -/
def ReadsExactly (checked : Bool) (m : Mount) (batch : MetaBatch) (now path : String)
    (ino : UInt64) (offset : Int64) (size : UInt32) : Prop :=
  ∀ data, m.node path = .file data →
    (read checked m batch now ino offset size).1 =
      .data (window data.bytes offset.toInt size.toNat)

theorem inoToPath_eq (ino : UInt64) (root : String) : inoToPath ino root = root := ite_self _

/-- What a call replies, once it is counted. -/
theorem read_data_iff (checked : Bool) (m : Mount) (batch : MetaBatch) (now : String)
    (ino : UInt64) (offset : Int64) (size : UInt32) (bytes : List UInt8) :
    (read checked m batch now ino offset size).1 = .data bytes ↔
      (∃ data, m.node m.realRoot = .file data ∧ readAt checked data offset size = .data bytes) ∧
        ¬ (checked = true ∧ (batch.entry (rootKey m.realRoot)).accessCount.toNat + 1 = 2 ^ 64) := by
  unfold read MetaBatch.queueMetaUpdate
  dsimp only
  split
  · next hfull =>
    split at hfull
    · next hover =>
      refine iff_of_false ?_ fun h => h.2 hover
      intro h
      cases h
    · cases hfull
  · next hqueued =>
    split at hqueued
    · cases hqueued
    · next hfits =>
      rw [and_iff_left hfits, inoToPath_eq, Mount.readFile]
      cases hnode : m.node m.realRoot with
      | file data => simp
      | dir => simp
      | failed errno => simp

/-- A call replies with the window exactly when the file is the root of the mount itself, the
offset is not past its end, and the count of the accesses does not overflow. -/
theorem reads_exactly_iff (checked : Bool) (m : Mount) (batch : MetaBatch) (now path : String)
    (ino : UInt64) (offset : Int64) (size : UInt32) :
    ReadsExactly checked m batch now path ino offset size ↔
      ∀ data, m.node path = .file data →
        path = m.realRoot ∧ 0 ≤ offset.toInt ∧ offset.toInt ≤ data.bytes.length ∧
          ¬ (checked = true ∧
            (batch.entry (rootKey m.realRoot)).accessCount.toNat + 1 = 2 ^ 64) := by
  refine forall_congr' fun data => forall_congr' fun hdata => ?_
  rw [read_data_iff]
  by_cases hroot : path = m.realRoot
  · subst hroot
    rw [and_iff_right rfl, ← and_assoc, ← readAt_iff checked data offset size]
    refine and_congr_left fun _ => ?_
    constructor
    · rintro ⟨data', hdata', hread⟩
      rw [hdata] at hdata'
      cases hdata'
      exact hread
    · exact fun hread => ⟨data, hdata, hread⟩
  · -- the file is below a directory
    have hdir := m.dir_of_file hdata hroot
    refine iff_of_false ?_ fun h => hroot h.1
    rintro ⟨⟨data', hdata', -⟩, -⟩
    rw [hdir] at hdata'
    cases hdata'

/-! ## Where it fails -/

def abc : ByteVec := ⟨[97, 98, 99], by decide⟩

/-- A home with one file of three bytes in it. -/
def home : Mount where
  realRoot := "/home/user"
  session := "s"
  node path :=
    if path = "/home/user" then .dir
    else if path = "/home/user/a.txt" then .file abc
    else .failed 2
  dir_of_file _ _ := rfl

/-- A mount of that file alone. -/
def single : Mount where
  realRoot := "/home/user/a.txt"
  session := "s"
  node path := if path = "/home/user/a.txt" then .file abc else .failed 2
  dir_of_file {path data} h hne := by
    rw [if_neg hne] at h
    cases h

/-- A read of the file in the home from its start gets an error; and where the file is the root
of the mount, a read at the offset four panics. -/
theorem not_readsExactly :
    (∀ checked,
      ¬ ReadsExactly checked home ∅ "2026-01-01T00:00:00+00:00" "/home/user/a.txt" 2 0 4096) ∧
      ∀ checked, ¬ ReadsExactly checked single ∅ "2026-01-01T00:00:00+00:00" "/home/user/a.txt"
        1 4 4096 := by
  constructor
  · intro checked h
    have hreply := h abc rfl
    cases checked <;> exact absurd hreply (by decide)
  · intro checked h
    have hreply := h abc rfl
    cases checked <;> exact absurd hreply (by decide)

end Anfs

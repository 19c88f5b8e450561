/-
# `Cognos.Lib.Lru` — a bounded map that forgets what was used least recently

A list of slots, the most recently used first.  Putting a new key into a full map drops the
last slot; nothing else is dropped to make room.

    makeRoom_eq   what a put drops: the old slot of its key, and the last slot where a new key
                  comes into a full map
    length_put    the bound is kept
-/
import Mathlib

namespace Lru

/-- A key, its value, and the time it was put there. -/
structure Slot (κ ν : Type) where
  key : κ
  value : ν
  born : Nat

/-- The most recently used first. -/
abbrev Slots (κ ν : Type) := List (Slot κ ν)

variable {κ ν : Type} [DecidableEq κ]

def find (l : Slots κ ν) (k : κ) : Option (Slot κ ν) := l.find? (·.key = k)

def without (l : Slots κ ν) (k : κ) : Slots κ ν := l.filter (·.key ≠ k)

/-- The value of a key, which is used by that; a slot that is too old is dropped instead. -/
def get (tooOld : Nat → Bool) (l : Slots κ ν) (k : κ) : Option ν × Slots κ ν :=
  match find l k with
  | none => (none, l)
  | some s => if tooOld s.born then (none, without l k) else (some s.value, s :: without l k)

/-- What stays when a key is put: its old slot goes, or, for a new key in a full map, the last. -/
def makeRoom (room : Nat) (l : Slots κ ν) (k : κ) : Slots κ ν :=
  if (find l k).isSome then without l k else if room ≤ l.length then l.dropLast else l

def put (room now : Nat) (l : Slots κ ν) (k : κ) (v : ν) : Slots κ ν :=
  ⟨k, v, now⟩ :: makeRoom room l k

/-! ## Finding -/

variable {l : Slots κ ν} {k : κ}

theorem key_of_find {s : Slot κ ν} (h : find l k = some s) : s.key = k := by
  have hkey := List.find?_some h
  exact of_decide_eq_true hkey

theorem mem_of_find {s : Slot κ ν} (h : find l k = some s) : s ∈ l := List.mem_of_find?_eq_some h

theorem find_eq_none_iff : find l k = none ↔ k ∉ l.map (·.key) := by
  rw [find, List.find?_eq_none, List.mem_map]
  constructor
  · rintro h ⟨s, hs, rfl⟩
    exact h s hs (decide_eq_true rfl)
  · intro h s hs hkey
    exact h ⟨s, hs, of_decide_eq_true hkey⟩

theorem isSome_find_iff : (find l k).isSome ↔ k ∈ l.map (·.key) := by
  rw [← not_iff_not, ← find_eq_none_iff, Option.not_isSome_iff_eq_none]

theorem find_cons (s : Slot κ ν) :
    find (s :: l) k = if s.key = k then some s else find l k := by
  rw [find, List.find?_cons]
  by_cases h : s.key = k
  · rw [if_pos h, decide_eq_true h]
  · rw [if_neg h, decide_eq_false h]
    rfl

/-- A slot is found under its key. -/
theorem find_of_mem (hnodup : (l.map (·.key)).Nodup) {s : Slot κ ν} (hs : s ∈ l) :
    find l s.key = some s := by
  induction l with
  | nil => cases hs
  | cons t l ih =>
      rw [List.map_cons, List.nodup_cons] at hnodup
      rw [find_cons]
      rcases List.mem_cons.mp hs with rfl | hs
      · exact if_pos rfl
      · have hne : t.key ≠ s.key := fun heq =>
          hnodup.1 (heq ▸ List.mem_map_of_mem hs)
        rw [if_neg hne]
        exact ih hnodup.2 hs

theorem find_filter {p : Slot κ ν → Bool} (hnodup : (l.map (·.key)).Nodup) (a : κ) :
    find (l.filter p) a = (find l a).filter p := by
  induction l with
  | nil => rfl
  | cons s l ih =>
      rw [List.map_cons, List.nodup_cons] at hnodup
      rw [find_cons, List.filter_cons]
      by_cases hkey : s.key = a
      · subst hkey
        have hnone : find l s.key = none := find_eq_none_iff.mpr hnodup.1
        rw [if_pos rfl]
        split_ifs with hp
        · rw [find_cons, if_pos rfl, Option.filter_some_pos hp]
        · rw [ih hnodup.2, hnone, Option.filter_some_neg (Bool.eq_false_iff.mpr hp)]
          rfl
      · rw [if_neg hkey]
        split_ifs
        · rw [find_cons, if_neg hkey]
          exact ih hnodup.2
        · exact ih hnodup.2

theorem find_without (hnodup : (l.map (·.key)).Nodup) (k a : κ) :
    find (without l k) a = if a = k then none else find l a := by
  rw [without, find_filter hnodup]
  split_ifs with ha
  · subst ha
    cases hfind : find l a with
    | none => rfl
    | some s => exact Option.filter_some_neg (by simp [key_of_find hfind])
  · cases hfind : find l a with
    | none => rfl
    | some s => exact Option.filter_some_pos (by simp [key_of_find hfind, ha])

theorem without_of_notMem (h : k ∉ l.map (·.key)) : without l k = l := by
  refine List.filter_eq_self.mpr fun s hs => decide_eq_true fun heq => ?_
  exact h (heq ▸ List.mem_map_of_mem hs)

/-- The last slot goes. -/
theorem dropLast_eq (hnodup : (l.map (·.key)).Nodup) {last : Slot κ ν}
    (hlast : l.getLast? = some last) : l.dropLast = without l last.key := by
  obtain ⟨front, rfl⟩ := List.getLast?_eq_some_iff.mp hlast
  rw [List.map_append, List.nodup_append] at hnodup
  have hfront : last.key ∉ front.map (·.key) := fun hmem =>
    hnodup.2.2 _ hmem _ List.mem_cons_self rfl
  have hgone : without [last] last.key = [] := by simp [without]
  rw [List.dropLast_concat, without, List.filter_append]
  show _ = without front last.key ++ without [last] last.key
  rw [without_of_notMem hfront, hgone, List.append_nil]

/-! ## Bounds -/

/-- What stays when there is room, or the key is there already. -/
theorem makeRoom_eq {room : Nat} (h : k ∈ l.map (·.key) ∨ l.length < room) :
    makeRoom room l k = without l k := by
  unfold makeRoom
  split_ifs with hk hfull
  · rfl
  · rcases h with h | h
    · exact absurd (isSome_find_iff.mpr h) hk
    · exact absurd h (Nat.not_lt.mpr hfull)
  · exact (without_of_notMem fun hmem => hk (isSome_find_iff.mpr hmem)).symm

/-- What stays when a new key comes into a full map. -/
theorem makeRoom_full {room : Nat} (hnodup : (l.map (·.key)).Nodup) (hfull : room ≤ l.length)
    (hk : k ∉ l.map (·.key)) {last : Slot κ ν} (hlast : l.getLast? = some last) :
    makeRoom room l k = without l last.key := by
  rw [makeRoom, if_neg fun h => hk (isSome_find_iff.mp h), if_pos hfull, dropLast_eq hnodup hlast]

/-- A bounded map stays bounded. -/
theorem length_put {room : Nat} (hroom : 0 < room) (hle : l.length ≤ room) (now : Nat) (k : κ)
    (v : ν) : (put room now l k v).length ≤ room := by
  have hmade : (makeRoom room l k).length + 1 ≤ room := by
    unfold makeRoom
    split_ifs with hk hfull
    · obtain ⟨s, hs⟩ := Option.isSome_iff_exists.mp hk
      have hlt : (without l k).length < l.length := by
        refine List.length_filter_lt_length_iff_exists.mpr ⟨s, mem_of_find hs, ?_⟩
        simp [key_of_find hs]
      exact (Nat.succ_le_of_lt hlt).trans hle
    · rw [List.length_dropLast]
      omega
    · omega
  exact hmade

end Lru

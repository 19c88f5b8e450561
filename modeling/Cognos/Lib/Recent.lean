/-
# `Cognos.Lib.Recent` — the most recent entries

A buffer that keeps its last `n` entries: one that makes room before it takes an entry
(`push`), and one that takes the entry first and then drops what is too much (`pushTrim`).
Either way the buffer is the end of the history (`List.rtake`).

    push_rtake, pushTrim_rtake   one more entry: the buffer is the last `n` of all there were
    foldl_pushTrim               after any entries, it is
-/
import Mathlib.Data.List.DropRight

namespace Recent

variable {α : Type}

/-- `if len >= n { pop_front } push_back` -/
def push (n : Nat) (xs : List α) (x : α) : List α :=
  (if n ≤ xs.length then xs.tail else xs) ++ [x]

/-- `push_back; if len > n { pop_front }` -/
def pushTrim (n : Nat) (xs : List α) (x : α) : List α :=
  if n < (xs ++ [x]).length then (xs ++ [x]).tail else xs ++ [x]

theorem length_rtake (n : Nat) (l : List α) : (l.rtake n).length = min n l.length := by
  rw [List.rtake, List.length_drop]
  omega

/-- A history that fits is kept. -/
theorem rtake_of_length_le {n : Nat} {l : List α} (h : l.length ≤ n) : l.rtake n = l := by
  rw [List.rtake, Nat.sub_eq_zero_of_le h, List.drop_zero]

/-- One more entry, and one less of the old ones. -/
theorem rtake_append_singleton (n : Nat) (l : List α) (x : α) :
    (l ++ [x]).rtake (n + 1) = l.rtake n ++ [x] :=
  List.rtake_concat_succ l n x

theorem tail_rtake (n : Nat) {l : List α} (h : n < l.length) :
    (l.rtake (n + 1)).tail = l.rtake n := by
  rw [List.rtake, List.tail_drop, List.rtake]
  congr 1
  omega

theorem push_rtake (n : Nat) (l : List α) (x : α) :
    push (n + 1) (l.rtake (n + 1)) x = (l ++ [x]).rtake (n + 1) := by
  rw [push, length_rtake, rtake_append_singleton]
  by_cases h : n + 1 ≤ l.length
  · rw [if_pos (by omega), tail_rtake n (by omega)]
  · rw [if_neg (by omega), rtake_of_length_le (by omega), rtake_of_length_le (by omega)]

theorem pushTrim_rtake (n : Nat) (l : List α) (x : α) :
    pushTrim n (l.rtake n) x = (l ++ [x]).rtake n := by
  rw [pushTrim, ← rtake_append_singleton, length_rtake, List.length_append,
    List.length_singleton]
  by_cases h : n < l.length + 1
  · rw [if_pos (by omega), tail_rtake n]
    rw [List.length_append, List.length_singleton]
    exact h
  · rw [if_neg (by omega), rtake_of_length_le, rtake_of_length_le]
    all_goals
      rw [List.length_append, List.length_singleton]
      omega

/-- After any entries, the buffer is the last `n` of all there were. -/
theorem foldl_pushTrim (n : Nat) (l xs : List α) :
    xs.foldl (pushTrim n) (l.rtake n) = (l ++ xs).rtake n := by
  induction xs generalizing l with
  | nil => rw [List.append_nil, List.foldl_nil]
  | cons x xs ih =>
      rw [List.foldl_cons, pushTrim_rtake, ih, List.append_assoc]
      rfl

end Recent

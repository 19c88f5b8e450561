/-
# `Cognos.Lib.PyLines` — the lines of a text file, as Python reads them

`read_text()` makes every end of a line a newline, `splitlines()` splits at these and at some
other characters, and `strip()` takes white space off both ends.  `named` are the lines that are
not blank, stripped; those of a whole text and of what follows it are the ones of the first and
then those of the second.

    named_append       the lines of a whole text and of what is appended to it
    mem_named_line     which line comes back, stripped, as it was written
-/
import Mathlib
import Cognos.Lib.Lines

namespace PyText

open Text

/-- Universal newlines: `\r\n` and `\r` are read as `\n`. -/
def universalNewlines : List Char → List Char
  | [] => []
  | c :: cs =>
      if c = '\r' then
        if cs.head? = some '\n' then universalNewlines cs else '\n' :: universalNewlines cs
      else c :: universalNewlines cs

/-- Where `str.splitlines()` splits, `\r\n` apart. -/
def isLineBoundary (c : Char) : Bool :=
  let n := c.toNat
  (10 ≤ n && n ≤ 13) || (0x1C ≤ n && n ≤ 0x1E) || n == 0x85 || n == 0x2028 || n == 0x2029

/-- Without the empty line after the last end of a line. -/
def dropLastEmpty (ls : List (List Char)) : List (List Char) :=
  if ls.getLast? = some [] then ls.dropLast else ls

/-- `read_text().splitlines()`. -/
def splitlines (text : List Char) : List String :=
  (dropLastEmpty ((universalNewlines text).splitOnP isLineBoundary)).map String.ofList

/-- `str.isspace()` of a character. -/
def isSpace (c : Char) : Bool := isWhitespace c || (0x1C ≤ c.toNat && c.toNat ≤ 0x1F)

/-- `str.strip()`. -/
def strip (s : String) : String :=
  String.ofList ((s.toList.dropWhile isSpace).rdropWhile isSpace)

/-- The lines that are not blank, stripped. -/
def named (ls : List String) : List String := (ls.map strip).filter (· ≠ "")

/-! ## Stripping -/

theorem toList_strip (s : String) :
    (strip s).toList = (s.toList.dropWhile isSpace).rdropWhile isSpace := by
  rw [strip, String.toList_ofList]

theorem mem_of_mem_strip {s : String} {c : Char} (h : c ∈ (strip s).toList) : c ∈ s.toList := by
  rw [toList_strip] at h
  exact (List.dropWhile_sublist _).mem ((List.rdropWhile_prefix _ _).mem h)

theorem strip_strip (s : String) : strip (strip s) = strip s := by
  refine String.toList_injective ?_
  rw [toList_strip, toList_strip, dropWhile_stripped, List.rdropWhile_idempotent]

/-! ## Lines -/

theorem named_nil : named [] = [] := rfl

theorem named_cons (l : String) (ls : List String) :
    named (l :: ls) = if strip l = "" then named ls else strip l :: named ls := by
  rw [named, List.map_cons]
  split
  · next h => rw [List.filter_cons_of_neg (by simp [h])]; rfl
  · next h => rw [List.filter_cons_of_pos (by simp [h])]; rfl

theorem mem_named_cons {l t : String} {ls : List String} :
    t ∈ named (l :: ls) ↔ (strip l ≠ "" ∧ t = strip l) ∨ t ∈ named ls := by
  rw [named_cons]
  split
  · next h => simp [h]
  · next h => simp [h]

theorem named_append_lines (xs ys : List String) : named (xs ++ ys) = named xs ++ named ys := by
  rw [named, List.map_append, List.filter_append]
  rfl

/-- An empty line at the end names nothing. -/
theorem named_dropLastEmpty (ls : List (List Char)) :
    named ((dropLastEmpty ls).map String.ofList) = named (ls.map String.ofList) := by
  unfold dropLastEmpty
  split
  · next h =>
      obtain ⟨front, rfl⟩ := List.getLast?_eq_some_iff.mp h
      rw [List.dropLast_concat, List.map_append, named_append_lines]
      exact (List.append_nil _).symm
  · rfl

theorem universalNewlines_append {xs : List Char} (h : Whole xs) (ys : List Char) :
    universalNewlines (xs ++ ys) = universalNewlines xs ++ universalNewlines ys := by
  induction xs with
  | nil => rfl
  | cons c cs ih =>
      have hcs : Whole cs := by
        rw [← List.singleton_append] at h
        exact h.of_append
      rw [List.cons_append, universalNewlines, universalNewlines, ih hcs]
      cases cs with
      | nil =>
          have hc : c = '\n' := h c rfl
          rw [if_neg (by rw [hc]; decide), if_neg (by rw [hc]; decide)]
          rfl
      | cons d ds =>
          rw [List.cons_append, List.head?_cons, List.head?_cons]
          split
          · split <;> rfl
          · rfl

theorem universalNewlines_eq_self {cs : List Char} (h : '\r' ∉ cs) :
    universalNewlines cs = cs := by
  induction cs with
  | nil => rfl
  | cons c cs ih =>
      obtain ⟨hc, hcs⟩ := not_or.mp (mt List.mem_cons.mpr h)
      rw [universalNewlines, if_neg (Ne.symm hc), ih hcs]

/-- What is read of a whole text ends with a newline, too. -/
theorem exists_universalNewlines {xs : List Char} (h : Whole xs) (hne : xs ≠ []) :
    ∃ front, universalNewlines xs = front ++ ['\n'] := by
  induction xs with
  | nil => exact absurd rfl hne
  | cons c cs ih =>
      have hcs : Whole cs := by
        rw [← List.singleton_append] at h
        exact h.of_append
      rw [universalNewlines]
      by_cases hnil : cs = []
      · subst hnil
        have hc : c = '\n' := h c rfl
        rw [if_neg (by rw [hc]; decide), hc]
        exact ⟨[], rfl⟩
      · obtain ⟨front, hfront⟩ := ih hcs hnil
        rw [hfront]
        split
        · split
          · exact ⟨front, rfl⟩
          · exact ⟨'\n' :: front, rfl⟩
        · exact ⟨c :: front, rfl⟩

theorem named_splitlines (text : List Char) :
    named (splitlines text) =
      named (((universalNewlines text).splitOnP isLineBoundary).map String.ofList) :=
  named_dropLastEmpty _

theorem named_append {xs : List Char} (h : Whole xs) (ys : List Char) :
    named (splitlines (xs ++ ys)) = named (splitlines xs) ++ named (splitlines ys) := by
  rcases eq_or_ne xs [] with rfl | hne
  · rfl
  · obtain ⟨front, hfront⟩ := exists_universalNewlines h hne
    have hnewline : isLineBoundary '\n' = true := by decide
    rw [named_splitlines, named_splitlines, named_splitlines, universalNewlines_append h, hfront,
      List.append_assoc, List.singleton_append, List.splitOnP_append_cons _ _ hnewline,
      List.splitOnP_append_cons _ _ hnewline, List.splitOnP_nil, List.map_append,
      named_append_lines, List.map_append, named_append_lines]
    congr 1
    exact (List.append_nil _).symm

/-! ## What comes back as it was written -/

/-- A line of its own that stays as it is. -/
def ReadsBack (t : String) : Prop :=
  t ≠ "" ∧ (∀ c ∈ t.toList, isLineBoundary c = false) ∧ strip t = t

instance (t : String) : Decidable (ReadsBack t) := by
  unfold ReadsBack
  infer_instance

theorem not_boundary_of_mem_splitOnP {cs l : List Char} (h : l ∈ cs.splitOnP isLineBoundary) :
    ∀ c ∈ l, isLineBoundary c = false := by
  induction cs generalizing l with
  | nil =>
      rw [List.splitOnP_nil, List.mem_singleton] at h
      rw [h]
      exact List.forall_mem_nil _
  | cons c cs ih =>
      rw [List.splitOnP_cons_eq_if_modifyHead] at h
      split at h
      · rcases List.mem_cons.mp h with rfl | h
        · exact List.forall_mem_nil _
        · exact ih h
      · next hc =>
          obtain ⟨first, rest, hsplit⟩ :=
            List.exists_cons_of_ne_nil (List.splitOnP_ne_nil isLineBoundary cs)
          rw [hsplit, List.modifyHead_cons] at h
          rw [hsplit] at ih
          rcases List.mem_cons.mp h with rfl | h
          · exact List.forall_mem_cons.mpr
              ⟨Bool.eq_false_iff.mpr hc, ih List.mem_cons_self⟩
          · exact ih (List.mem_cons_of_mem _ h)

theorem readsBack_of_mem_named {text : List Char} {t : String}
    (h : t ∈ named (splitlines text)) : ReadsBack t := by
  rw [named_splitlines, named] at h
  obtain ⟨hmem, hne⟩ := List.mem_filter.mp h
  obtain ⟨s, hs, rfl⟩ := List.mem_map.mp hmem
  obtain ⟨l, hl, rfl⟩ := List.mem_map.mp hs
  refine ⟨of_decide_eq_true hne, fun c hc => ?_, strip_strip _⟩
  have hc := mem_of_mem_strip hc
  rw [String.toList_ofList] at hc
  exact not_boundary_of_mem_splitOnP hl c hc

theorem named_of_readsBack {t : String} (h : ReadsBack t) :
    named (splitlines (t.toList ++ ['\n'])) = [t] := by
  obtain ⟨hne, hline, hstrip⟩ := h
  have hreturn : '\r' ∉ t.toList ++ ['\n'] := by
    intro hmem
    rcases List.mem_append.mp hmem with hmem | hmem
    · exact absurd (hline _ hmem) (by decide)
    · exact absurd (List.mem_singleton.mp hmem) (by decide)
  have hnewline : isLineBoundary '\n' = true := by decide
  rw [named_splitlines, universalNewlines_eq_self hreturn,
    List.splitOnP_append_cons_of_forall_mem hline _ hnewline, List.splitOnP_nil, List.map_cons,
    String.ofList_toList, named_cons, hstrip, if_neg hne]
  rfl

theorem mem_named_line {t : String} :
    t ∈ named (splitlines (t.toList ++ ['\n'])) ↔ ReadsBack t := by
  constructor
  · exact readsBack_of_mem_named
  · intro h
    rw [named_of_readsBack h]
    exact List.mem_singleton_self t

end PyText

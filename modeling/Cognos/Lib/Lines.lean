/-
# `Cognos.Lib.Lines` — texts made of whole lines

A text is `Whole` when it is empty or ends with a newline.  The lines of two such texts one
after the other are the lines of the one and then those of the other, so a file to which whole
lines are appended can be read line by line while it grows.

    linesGo_append_whole    the lines of a whole text and of what follows it
    trim_trim               trimming twice is trimming once
    mem_entries_line        which line is read back, trimmed, as it was written
-/
import Mathlib
import Cognos.Lib.Text

namespace Text

/-! ## Trimming -/

theorem toList_trim (s : String) :
    (trim s).toList = (s.toList.dropWhile isWhitespace).rdropWhile isWhitespace := by
  rw [trim, String.toList_ofList]
  rfl

theorem mem_of_mem_trim {s : String} {c : Char} (h : c ∈ (trim s).toList) : c ∈ s.toList := by
  rw [toList_trim] at h
  exact (List.dropWhile_sublist _).mem ((List.rdropWhile_prefix _ _).mem h)

/-- What is stripped at both ends has nothing left to strip at the front. -/
theorem dropWhile_stripped {α : Type} (p : α → Bool) (l : List α) :
    ((l.dropWhile p).rdropWhile p).dropWhile p = (l.dropWhile p).rdropWhile p := by
  rw [List.dropWhile_eq_self_iff]
  intro hpos
  have hpre := List.rdropWhile_prefix p (l.dropWhile p)
  have hdrop : 0 < (l.dropWhile p).length := lt_of_lt_of_le hpos hpre.length_le
  rw [hpre.getElem hpos]
  exact List.dropWhile_get_zero_not _ _ hdrop

theorem trim_trim (s : String) : trim (trim s) = trim s := by
  refine String.toList_injective ?_
  rw [toList_trim, toList_trim, dropWhile_stripped, List.rdropWhile_idempotent]

/-- The last character of a trimmed text is no white space. -/
theorem getLast?_trim {s : String} {c : Char} (h : (trim s).toList.getLast? = some c) :
    isWhitespace c = false := by
  rw [toList_trim] at h
  have hne : (s.toList.dropWhile isWhitespace).rdropWhile isWhitespace ≠ [] := by
    intro hnil
    rw [hnil] at h
    cases h
  rw [List.getLast?_eq_getLast_of_ne_nil hne] at h
  cases h
  exact Bool.eq_false_iff.mpr (List.rdropWhile_last_not _ _ hne)

theorem mem_of_mem_endLine {cs : List Char} {c : Char} (h : c ∈ (endLine cs).toList) :
    c ∈ cs := by
  unfold endLine at h
  split at h
  · rw [String.toList_ofList, List.mem_reverse] at h
    exact List.mem_cons_of_mem _ h
  · rw [String.toList_ofList, List.mem_reverse] at h
    exact h

/-! ## Whole lines -/

/-- Nothing, or lines of which the last one is ended as well. -/
def Whole (cs : List Char) : Prop := ∀ c ∈ cs.getLast?, c = '\n'

theorem whole_nil : Whole [] := nofun

theorem whole_line (l : List Char) : Whole (l ++ ['\n']) := by
  intro c hc
  rw [List.getLast?_concat] at hc
  exact (Option.some.inj hc).symm

theorem Whole.append {xs ys : List Char} (hxs : Whole xs) (hys : Whole ys) : Whole (xs ++ ys) := by
  intro c hc
  rw [List.getLast?_append] at hc
  cases hlast : ys.getLast? with
  | none =>
      rw [hlast] at hc
      exact hxs c hc
  | some d =>
      rw [hlast] at hc
      exact hys c (hlast ▸ hc)

theorem Whole.of_append {xs ys : List Char} (h : Whole (xs ++ ys)) : Whole ys := by
  intro c hc
  refine h c ?_
  rw [List.getLast?_append, Option.mem_def.mp hc]
  rfl

theorem Whole.drop {cs : List Char} (h : Whole cs) (n : Nat) : Whole (cs.drop n) := by
  rw [← List.take_append_drop n cs] at h
  exact h.of_append

theorem Whole.newline_mem {cs : List Char} (h : Whole cs) (hne : cs ≠ []) : '\n' ∈ cs := by
  have hlast := h _ (List.getLast?_eq_getLast_of_ne_nil hne)
  exact hlast ▸ List.getLast_mem hne

theorem exists_line {cs : List Char} (h : '\n' ∈ cs) :
    ∃ l rest, '\n' ∉ l ∧ cs = l ++ '\n' :: rest := by
  obtain ⟨l, rest, hcs, hl⟩ := List.eq_append_cons_of_mem h
  exact ⟨l, rest, hl, hcs⟩

/-- A whole text is read a line at a time. -/
theorem Whole.rec_lines {motive : List Char → Prop} (nil : motive [])
    (line : ∀ l rest, '\n' ∉ l → Whole rest → motive rest → motive (l ++ '\n' :: rest)) :
    ∀ {cs : List Char}, Whole cs → motive cs := by
  intro cs h
  induction hn : cs.length using Nat.strong_induction_on generalizing cs with
  | _ n ih =>
      by_cases hne : cs = []
      · exact hne ▸ nil
      · obtain ⟨l, rest, hl, rfl⟩ := exists_line (h.newline_mem hne)
        have hrest : Whole rest := by
          rw [List.append_cons] at h
          exact h.of_append
        refine line l rest hl hrest (ih rest.length ?_ hrest rfl)
        rw [← hn, List.length_append, List.length_cons]
        omega

theorem linesGo_append_whole {xs : List Char} (h : Whole xs) (ys : List Char) :
    linesGo [] (xs ++ ys) = linesGo [] xs ++ linesGo [] ys := by
  refine h.rec_lines (motive := fun xs => linesGo [] (xs ++ ys) = linesGo [] xs ++ linesGo [] ys)
    rfl fun l rest hl _ ih => ?_
  rw [List.append_assoc, List.cons_append, linesGo_append [] l _ hl, linesGo_append [] l _ hl, ih,
    List.cons_append]

/-- The first line of a text, without its newline, and what comes after it. -/
def cutLine : List Char → Option (List Char × List Char)
  | [] => none
  | c :: cs => if c = '\n' then some ([], cs) else (cutLine cs).map fun p => (c :: p.1, p.2)

theorem cutLine_line {l : List Char} (hl : '\n' ∉ l) (rest : List Char) :
    cutLine (l ++ '\n' :: rest) = some (l, rest) := by
  induction l with
  | nil => rfl
  | cons c l ih =>
      obtain ⟨hc, hl⟩ := not_or.mp (mt List.mem_cons.mpr hl)
      rw [List.cons_append, cutLine, if_neg (Ne.symm hc), ih hl]
      rfl

theorem cutLine_none {cs : List Char} (h : '\n' ∉ cs) : cutLine cs = none := by
  induction cs with
  | nil => rfl
  | cons c cs ih =>
      obtain ⟨hc, hcs⟩ := not_or.mp (mt List.mem_cons.mpr h)
      rw [cutLine, if_neg (Ne.symm hc), ih hcs]
      rfl

theorem cutLine_some {cs l rest : List Char} (h : cutLine cs = some (l, rest)) :
    '\n' ∉ l ∧ cs = l ++ '\n' :: rest := by
  by_cases hmem : '\n' ∈ cs
  · obtain ⟨l', rest', hl', rfl⟩ := exists_line hmem
    rw [cutLine_line hl'] at h
    cases h
    exact ⟨hl', rfl⟩
  · rw [cutLine_none hmem] at h
    cases h

/-! ## Entries -/

/-- A line as a reader takes it that trims its lines and skips blank ones. -/
def entry (l : List Char) : List String :=
  if trim (endLine l.reverse) = "" then [] else [trim (endLine l.reverse)]

/-- What such a reader takes from a text. -/
def entries (cs : List Char) : List String :=
  ((linesGo [] cs).map trim).filter (· ≠ "")

theorem entries_nil : entries [] = [] := rfl

theorem entries_append {xs : List Char} (h : Whole xs) (ys : List Char) :
    entries (xs ++ ys) = entries xs ++ entries ys := by
  rw [entries, linesGo_append_whole h, List.map_append, List.filter_append]
  rfl

theorem entries_line {l : List Char} (hl : '\n' ∉ l) (rest : List Char) :
    entries (l ++ '\n' :: rest) = entry l ++ entries rest := by
  rw [entries, linesGo_append [] l rest hl, List.append_nil, List.map_cons, entry]
  by_cases hblank : trim (endLine l.reverse) = ""
  · rw [List.filter_cons_of_neg (by simpa using hblank), if_pos hblank]
    rfl
  · rw [List.filter_cons_of_pos (by simpa using hblank), if_neg hblank]
    rfl

/-- What is written on a line of its own and read back as it is. -/
def ReadsBack (t : String) : Prop := '\n' ∉ t.toList ∧ trim t = t

instance (t : String) : Decidable (ReadsBack t) := by
  unfold ReadsBack
  infer_instance

theorem readsBack_of_mem_entry {l : List Char} (hl : '\n' ∉ l) {t : String} (h : t ∈ entry l) :
    ReadsBack t := by
  unfold entry at h
  split_ifs at h with hblank
  · cases h
  · rw [List.mem_singleton.mp h]
    refine ⟨fun hmem => hl ?_, trim_trim _⟩
    exact List.mem_reverse.mp (mem_of_mem_endLine (mem_of_mem_trim hmem))

theorem readsBack_of_mem_entries {cs : List Char} (hcs : Whole cs) {t : String}
    (h : t ∈ entries cs) : ReadsBack t := by
  refine hcs.rec_lines (motive := fun cs => t ∈ entries cs → ReadsBack t) nofun ?_ h
  intro l rest hl _ ih hmem
  rw [entries_line hl] at hmem
  rcases List.mem_append.mp hmem with hmem | hmem
  · exact readsBack_of_mem_entry hl hmem
  · exact ih hmem

/-- A text that reads back is the one entry of its line. -/
theorem entries_of_readsBack {t : String} (h : ReadsBack t) (hne : t ≠ "") :
    entries (t.toList ++ ['\n']) = [t] := by
  have hlast : t.toList.getLast? ≠ some '\r' := by
    intro hcr
    rw [← h.2] at hcr
    exact absurd (getLast?_trim hcr) (by decide)
  rw [entries_line h.1, entry, endLine_reverse hlast, h.2, if_neg hne, entries_nil, List.append_nil]

theorem mem_entries_line {t : String} (hne : t ≠ "") :
    t ∈ entries (t.toList ++ ['\n']) ↔ ReadsBack t := by
  constructor
  · exact readsBack_of_mem_entries (whole_line _)
  · intro h
    rw [entries_of_readsBack h hne]
    exact List.mem_singleton_self t

end Text

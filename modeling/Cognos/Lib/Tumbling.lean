/-
# `Cognos.Lib.Tumbling` — windows that tumble

A counter that restarts at the first event its window no longer covers.  The window is a
function of the events alone: `window covers ts` is what the last restart left, a run of
events at the end of `ts` that all lie where their first one reaches.

    window_append_singleton   an event joins the window, or opens the next one
    window_suffix             the window is what the history ends in
    covers_head               and lies where its first event reaches
    exists_reached            a window of `n` events was once a window of any smaller number
    window_append_or          a burst is in one window, or the last window began in it
    exists_reached_of_burst   in a burst of `2n - 1` events a window has `n`, or is found with them
-/
import Mathlib.Data.List.Basic
import Mathlib.Data.List.Infix

namespace Tumbling

variable {τ : Type} (covers : τ → τ → Bool)

/-- What the next event makes of a window. -/
def extend (w : List τ) (t : τ) : List τ :=
  match w with
  | [] => [t]
  | start :: rest => if covers start t then start :: rest ++ [t] else [t]

/-- The window open after the events. -/
def window (ts : List τ) : List τ := ts.foldl (extend covers) []

@[simp] theorem window_nil : window covers [] = [] := rfl

theorem window_append_singleton (ts : List τ) (t : τ) :
    window covers (ts ++ [t]) = extend covers (window covers ts) t := by
  rw [window, List.foldl_append]
  rfl

/-- An event joins the window, or opens the next one. -/
theorem extend_eq (w : List τ) (t : τ) :
    extend covers w t = w ++ [t] ∨ extend covers w t = [t] := by
  cases w with
  | nil => exact Or.inl rfl
  | cons start rest =>
      rw [extend]
      split
      · exact Or.inl rfl
      · exact Or.inr rfl

theorem extend_ne_nil (w : List τ) (t : τ) : extend covers w t ≠ [] := by
  rcases extend_eq covers w t with h | h <;> simp [h]

theorem window_ne_nil {ts : List τ} (h : ts ≠ []) : window covers ts ≠ [] := by
  induction ts using List.reverseRecOn with
  | nil => exact absurd rfl h
  | append_singleton ts t _ =>
      rw [window_append_singleton]
      exact extend_ne_nil covers _ t

/-- The window is what the history ends in. -/
theorem window_suffix (ts : List τ) : window covers ts <:+ ts := by
  induction ts using List.reverseRecOn with
  | nil => exact List.suffix_rfl
  | append_singleton ts t ih =>
      rw [window_append_singleton]
      rcases extend_eq covers (window covers ts) t with h | h
      · rw [h]
        obtain ⟨before, hbefore⟩ := ih
        exact ⟨before, by rw [← List.append_assoc, hbefore]⟩
      · rw [h]
        exact List.suffix_append ts [t]

/-- Every event of a window but its first lies where the first one reaches. -/
theorem covers_head {ts : List τ} {start : τ} {rest : List τ}
    (h : window covers ts = start :: rest) : ∀ t ∈ rest, covers start t = true := by
  induction ts using List.reverseRecOn generalizing rest with
  | nil => exact absurd h (List.cons_ne_nil start rest).symm
  | append_singleton ts t ih =>
      rw [window_append_singleton] at h
      cases hw : window covers ts with
      | nil =>
          rw [hw] at h
          obtain ⟨-, rfl⟩ := List.cons.inj h
          intro u hu
          exact absurd hu List.not_mem_nil
      | cons first more =>
          rw [hw, extend] at h
          by_cases hcovers : covers first t = true
          · rw [if_pos hcovers, List.cons_append] at h
            obtain ⟨rfl, rfl⟩ := List.cons.inj h
            intro u hu
            rcases List.mem_append.mp hu with hu | hu
            · exact ih hw u hu
            · rw [List.mem_singleton.mp hu]
              exact hcovers
          · rw [if_neg hcovers] at h
            obtain ⟨-, rfl⟩ := List.cons.inj h
            intro u hu
            exact absurd hu List.not_mem_nil

/-- A window of `n` events was once a window of any smaller number of them. -/
theorem exists_reached {ts : List τ} {n : Nat} (hn : 0 < n) (h : n ≤ (window covers ts).length) :
    ∃ past rest, ts = past ++ rest ∧ (window covers past).length = n ∧
      window covers ts = window covers past ++ rest := by
  induction ts using List.reverseRecOn with
  | nil =>
      rw [window_nil, List.length_nil] at h
      omega
  | append_singleton ts t ih =>
      by_cases hn' : (window covers (ts ++ [t])).length = n
      · exact ⟨ts ++ [t], [], (List.append_nil _).symm, hn', (List.append_nil _).symm⟩
      rw [window_append_singleton] at h hn' ⊢
      rcases extend_eq covers (window covers ts) t with hext | hext
      · rw [hext, List.length_append, List.length_singleton] at h hn'
        obtain ⟨past, rest, hts, hlen, hwin⟩ := ih (by omega)
        refine ⟨past, rest ++ [t], by rw [hts, List.append_assoc], hlen, ?_⟩
        rw [hext, hwin, List.append_assoc]
      · rw [hext, List.length_singleton] at h hn'
        omega

/-! ## Bursts -/

/-- Events each of which reaches all the later ones. -/
def Burst (bs : List τ) : Prop := bs.Pairwise fun s t => covers s t = true

variable {covers}

/-- A burst is in the window it finds, or the last window began in it. -/
theorem window_append_or (ts : List τ) {bs : List τ} (hbs : Burst covers bs) :
    window covers (ts ++ bs) = window covers ts ++ bs ∨
      ∃ early late, bs = early ++ late ∧ window covers (ts ++ early) = window covers ts ++ early ∧
        window covers (ts ++ bs) = late := by
  induction bs using List.reverseRecOn with
  | nil => exact Or.inl (by simp)
  | append_singleton bs t ih =>
      obtain ⟨hburst, -, hlast⟩ := List.pairwise_append.mp hbs
      rw [← List.append_assoc]
      rcases ih hburst with hone | ⟨early, late, rfl, hearly, hlate⟩
      · rcases extend_eq covers (window covers (ts ++ bs)) t with hext | hext
        · refine Or.inl ?_
          rw [window_append_singleton, hext, hone, List.append_assoc]
        · exact Or.inr ⟨bs, [t], rfl, hone, by rw [window_append_singleton, hext]⟩
      · refine Or.inr ⟨early, late ++ [t], List.append_assoc .., hearly, ?_⟩
        rw [window_append_singleton, hlate]
        cases late with
        | nil => rfl
        | cons start rest =>
            have hcovers : covers start t = true := hlast start (by simp) t (by simp)
            rw [extend, if_pos hcovers]

/-- A window that has `n` events was open with just `n` of them. -/
theorem exists_reached_of_le (hrefl : ∀ t, covers t t = true) {ts bs : List τ} {n : Nat}
    (hn : 0 < n) (hne : bs ≠ []) (h : n ≤ (window covers (ts ++ bs)).length) :
    ∃ past, past <+: ts ++ bs ∧ (window covers past).length = n ∧
      ∃ start, (∀ t ∈ window covers past, covers start t = true) ∧
        ∃ b ∈ bs, covers start b = true := by
  obtain ⟨past, rest, hsplit, hpast, hwin⟩ := exists_reached covers hn h
  obtain ⟨start, more, hw⟩ : ∃ start more, window covers (ts ++ bs) = start :: more := by
    cases hw : window covers (ts ++ bs) with
    | nil =>
        rw [hw, List.length_nil] at h
        omega
    | cons start more => exact ⟨start, more, rfl⟩
  have hall : ∀ t ∈ window covers (ts ++ bs), covers start t = true := by
    rw [hw]
    intro t ht
    rcases List.mem_cons.mp ht with rfl | ht
    · exact hrefl t
    · exact covers_head covers hw t ht
  refine ⟨past, ⟨rest, hsplit.symm⟩, hpast, start, fun t ht => hall t ?_, ?_⟩
  · rw [hwin]
    exact List.mem_append_left rest ht
  -- the last event of the window is the last of the burst
  · have hlast : (ts ++ bs).getLast? = (window covers (ts ++ bs)).getLast? := by
      obtain ⟨front, hfront⟩ := window_suffix covers (ts ++ bs)
      conv_lhs => rw [← hfront]
      exact List.getLast?_append_of_ne_nil front (by rw [hw]; exact List.cons_ne_nil start more)
    rw [List.getLast?_append_of_ne_nil ts hne, List.getLast?_eq_some_getLast hne] at hlast
    exact ⟨bs.getLast hne, List.getLast_mem hne,
      hall _ (List.mem_of_getLast? hlast.symm)⟩

/-- In a burst of `2n - 1` events a window has `n`, or is found with as many. -/
theorem exists_reached_of_burst (hrefl : ∀ t, covers t t = true) (ts : List τ) {bs : List τ}
    {n : Nat} (hn : 0 < n) (hbs : Burst covers bs) (hlen : 2 * n ≤ bs.length + 1) :
    ∃ past, past <+: ts ++ bs ∧ (window covers past).length = n ∧
      ∃ start, (∀ t ∈ window covers past, covers start t = true) ∧
        ∃ b ∈ bs, covers start b = true := by
  have hne : ∀ {l : List τ}, n ≤ l.length → l ≠ [] := by
    rintro l hl rfl
    rw [List.length_nil] at hl
    omega
  -- the window that gets to `n` events is the one the burst ends in, or the one it began in
  rcases window_append_or ts hbs with hone | ⟨early, late, rfl, hearly, hlate⟩
  · refine exists_reached_of_le hrefl hn (hne (by omega)) ?_
    rw [hone, List.length_append]
    omega
  · rw [List.length_append] at hlen
    by_cases hlong : n ≤ late.length
    · refine exists_reached_of_le hrefl hn ?_ (by rw [hlate]; exact hlong)
      exact List.append_ne_nil_of_right_ne_nil early (hne hlong)
    · obtain ⟨past, hpre, hpast, start, hall, b, hb, hcovers⟩ :=
        exists_reached_of_le hrefl hn (hne (show n ≤ early.length by omega))
          (show n ≤ (window covers (ts ++ early)).length by
            rw [hearly, List.length_append]
            omega)
      refine ⟨past, hpre.trans ?_, hpast, start, hall, b, List.mem_append_left late hb, hcovers⟩
      rw [← List.append_assoc]
      exact List.prefix_append (ts ++ early) late

end Tumbling

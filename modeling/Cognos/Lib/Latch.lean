/-
# `Cognos.Lib.Latch` — what a step raises and only some steps clear

A latch is a condition on the states of a machine.  Whether a step raises it may depend on the
state the step is taken in, unlike for a switch; what clears it is told from the step alone.

    raised_iff   it holds after a run when a step raised it and none since has cleared it
-/
import Mathlib.Data.List.Induction
import Cognos.Lib.Run

namespace Run

variable {σ α : Type} (step : σ → α → σ)

/-- Some step raises the latch in the state it is taken in, and none after it clears it. -/
def Raised (Up : σ → α → Prop) (Down : α → Prop) (s : σ) (as : List α) : Prop :=
  ∃ past a rest, as = past ++ a :: rest ∧ Up (after step s past) a ∧ ∀ b ∈ rest, ¬ Down b

variable {step}

theorem raised_append_singleton {Up : σ → α → Prop} {Down : α → Prop} {s : σ} {as : List α}
    {a : α} : Raised step Up Down s (as ++ [a]) ↔
      Up (after step s as) a ∨ (Raised step Up Down s as ∧ ¬ Down a) := by
  constructor
  · rintro ⟨past, b, rest, has, hup, hdown⟩
    rcases List.eq_nil_or_concat' rest with rfl | ⟨rest, c, rfl⟩
    · obtain ⟨rfl, hlast⟩ := List.append_inj' has rfl
      obtain rfl : a = b := by simpa using hlast
      exact Or.inl hup
    · rw [← List.cons_append, ← List.append_assoc] at has
      obtain ⟨rfl, hlast⟩ := List.append_inj' has rfl
      obtain rfl : a = c := by simpa using hlast
      refine Or.inr ⟨⟨past, b, rest, rfl, hup, fun d hd => hdown d ?_⟩, hdown a ?_⟩
      · exact List.mem_append_left _ hd
      · simp
  · rintro (hup | ⟨⟨past, b, rest, rfl, hup, hdown⟩, ha⟩)
    · exact ⟨as, a, [], rfl, hup, List.forall_mem_nil _⟩
    · refine ⟨past, b, rest ++ [a], by simp, hup, fun d hd => ?_⟩
      rcases List.mem_append.mp hd with hd | hd
      · exact hdown d hd
      · rw [List.mem_singleton.mp hd]
        exact ha

/-- Where a step leaves a latch raised exactly when it raises it, or finds it raised and does not
clear it, a run leaves it raised when one of its steps raised it and none since has cleared it. -/
theorem raised_iff {I : σ → Prop} {Up : σ → α → Prop} {Down : α → Prop}
    (hstep : ∀ s a, I (step s a) ↔ Up s a ∨ (I s ∧ ¬ Down a)) {s : σ} (h0 : ¬ I s)
    (as : List α) : I (after step s as) ↔ Raised step Up Down s as := by
  induction as using List.reverseRecOn with
  | nil =>
      refine iff_of_false h0 ?_
      rintro ⟨past, a, rest, has, -⟩
      exact absurd has.symm (List.append_ne_nil_of_right_ne_nil _ (List.cons_ne_nil _ _))
  | append_singleton as a ih =>
      rw [after_append, after_cons, after_nil, hstep, ih, raised_append_singleton]

end Run

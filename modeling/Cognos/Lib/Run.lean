/-
# `Cognos.Lib.Run` — runs of a machine

A machine is a step function on states.  A run takes steps one after the other
(`Run.after`); a condition on steps holds along a run when each step meets it in the
state it is taken in (`Run.Along`).

    invariant            what every step that meets the condition keeps, the run keeps
    invariant_of_step    what every step keeps, a run keeps
    along_of_invariant   and what each step has because of it, all steps have
    along_append         a condition along a run, along its two parts
    along_iff_split      and along it all, of each step after those before it
    throughout_iff       what has to hold along a run for all its states to be good
    throughout_iff_along, throughout_invariant_iff
                         the same where any step may come, and for an invariant
    related              two machines that keep in step stay so
    switched_iff         what a run says of a switch is what its last switching step says
    counter_after        a 64-bit counter of the steps that meet a condition shows their number
    tally_forget, tally_add, tally_map
                         that number, where the state is not asked about; of two conditions that
                         share no step; on the image of a run
-/
import Mathlib.Data.List.Basic

namespace Run

variable {σ α : Type} (step : σ → α → σ)

/-- The state after the steps. -/
def after (s : σ) (as : List α) : σ := as.foldl step s

/-- Every step meets `P` in the state it is taken in. -/
def Along (P : σ → α → Prop) : σ → List α → Prop
  | _, [] => True
  | s, a :: as => P s a ∧ Along P (step s a) as

@[simp] theorem after_nil (s : σ) : after step s [] = s := rfl

@[simp] theorem after_cons (s : σ) (a : α) (as : List α) :
    after step s (a :: as) = after step (step s a) as := rfl

theorem after_append (s : σ) (as bs : List α) :
    after step s (as ++ bs) = after step (after step s as) bs :=
  List.foldl_append

theorem along_append (P : σ → α → Prop) (s : σ) (as bs : List α) :
    Along step P s (as ++ bs) ↔ Along step P s as ∧ Along step P (after step s as) bs := by
  induction as generalizing s with
  | nil => simp [Along]
  | cons a as ih => simp [Along, ih, and_assoc]

theorem Along.mono {P Q : σ → α → Prop} (hPQ : ∀ s a, P s a → Q s a) {s : σ} {as : List α}
    (h : Along step P s as) : Along step Q s as := by
  induction as generalizing s with
  | nil => trivial
  | cons a as ih => exact ⟨hPQ s a h.1, ih h.2⟩

theorem Along.and {P Q : σ → α → Prop} {s : σ} {as : List α} (hP : Along step P s as)
    (hQ : Along step Q s as) : Along step (fun s a => P s a ∧ Q s a) s as := by
  induction as generalizing s with
  | nil => trivial
  | cons a as ih => exact ⟨⟨hP.1, hQ.1⟩, ih hP.2 hQ.2⟩

theorem Along.and_forall {P : σ → α → Prop} {Q : α → Prop} {s : σ} {as : List α}
    (h : Along step P s as) (hQ : ∀ a ∈ as, Q a) : Along step (fun s a => Q a ∧ P s a) s as := by
  induction as generalizing s with
  | nil => trivial
  | cons a as ih =>
      exact ⟨⟨hQ a List.mem_cons_self, h.1⟩, ih h.2 fun b hb => hQ b (List.mem_cons_of_mem _ hb)⟩

/-- What every step that meets `P` keeps, a run whose steps all meet `P` keeps. -/
theorem invariant {P : σ → α → Prop} {I : σ → Prop}
    (hstep : ∀ s a, I s → P s a → I (step s a)) {s : σ} {as : List α} (h0 : I s)
    (h : Along step P s as) : I (after step s as) := by
  induction as generalizing s with
  | nil => exact h0
  | cons a as ih => exact ih (hstep s a h0 h.1) h.2

/-- What every step keeps, a run keeps. -/
theorem invariant_of_step {I : σ → Prop} (hstep : ∀ s a, I s → I (step s a)) {s : σ} (h0 : I s)
    (as : List α) : I (after step s as) := by
  induction as generalizing s with
  | nil => exact h0
  | cons a as ih => exact ih (hstep s a h0)

/-- What a step that meets `P` has in a state that meets `I`, every step of such a run has. -/
theorem along_of_invariant {I : σ → Prop} {P Q : σ → α → Prop}
    (hkeep : ∀ s a, I s → P s a → I (step s a)) (hQ : ∀ s a, I s → P s a → Q s a) {s : σ}
    {as : List α} (h0 : I s) (h : Along step P s as) : Along step Q s as := by
  induction as generalizing s with
  | nil => trivial
  | cons a as ih => exact ⟨hQ s a h0 h.1, ih (hkeep s a h0 h.1) h.2⟩

/-- A condition holds along a run when it holds of each step after the ones before it. -/
theorem along_iff_split {P : σ → α → Prop} {s : σ} {as : List α} :
    Along step P s as ↔ ∀ past a rest, as = past ++ a :: rest → P (after step s past) a := by
  constructor
  · intro h past a rest has
    rw [has, along_append] at h
    exact h.2.1
  · intro h
    induction as generalizing s with
    | nil => trivial
    | cons a as ih =>
        refine ⟨h [] a as rfl, ih fun past b rest has => ?_⟩
        exact h (a :: past) b rest (by rw [has, List.cons_append])

/-! ## Good all along -/

/-- A run is good from its start to its end. -/
def Throughout (G : σ → Prop) (s : σ) (as : List α) : Prop :=
  ∀ past, past <+: as → G (after step s past)

theorem throughout_cons {G : σ → Prop} {s : σ} {a : α} {as : List α} :
    Throughout step G s (a :: as) ↔ G s ∧ Throughout step G (step s a) as := by
  constructor
  · intro h
    refine ⟨h [] List.nil_prefix, fun past hpast => ?_⟩
    exact h (a :: past) ((List.prefix_cons_inj a).mpr hpast)
  · rintro ⟨hs, h⟩ past hpast
    cases past with
    | nil => exact hs
    | cons b past =>
        obtain ⟨rfl, hrest⟩ := List.cons_prefix_cons.mp hpast
        exact h past hrest

/-- Where a step from a state that meets `I` leads to a good one exactly when it meets `P`, and
then to one that meets `I` again, runs are good throughout exactly when they meet `P` all along. -/
theorem throughout_iff {I G : σ → Prop} {D P : σ → α → Prop} (hgood : ∀ s, I s → G s)
    (hiff : ∀ s a, I s → D s a → (G (step s a) ↔ P s a))
    (hkeep : ∀ s a, I s → D s a → P s a → I (step s a)) {s : σ} {as : List α} (h0 : I s)
    (hD : Along step D s as) : Throughout step G s as ↔ Along step P s as := by
  induction as generalizing s with
  | nil =>
      refine iff_of_true (fun past hpast => ?_) trivial
      rw [List.prefix_nil.mp hpast]
      exact hgood s h0
  | cons a as ih =>
      rw [throughout_cons]
      constructor
      · rintro ⟨-, hafter⟩
        have hP := (hiff s a h0 hD.1).mp (hafter [] List.nil_prefix)
        exact ⟨hP, (ih (hkeep s a h0 hD.1 hP) hD.2).mp hafter⟩
      · rintro ⟨hP, hafter⟩
        exact ⟨hgood s h0, (ih (hkeep s a h0 hD.1 hP) hD.2).mpr hafter⟩

/-- A condition on steps alone holds along every run of such steps. -/
theorem along_of_forall {P : σ → α → Prop} {s : σ} {as : List α} (h : ∀ a ∈ as, ∀ s, P s a) :
    Along step P s as := by
  induction as generalizing s with
  | nil => trivial
  | cons a as ih =>
      obtain ⟨ha, hrest⟩ := List.forall_mem_cons.mp h
      exact ⟨ha s, ih hrest⟩

/-- The same where any step may come. -/
theorem throughout_iff_along {I G : σ → Prop} {P : σ → α → Prop} (hgood : ∀ s, I s → G s)
    (hiff : ∀ s a, I s → (G (step s a) ↔ P s a)) (hkeep : ∀ s a, I s → P s a → I (step s a))
    {s : σ} {as : List α} (h0 : I s) : Throughout step G s as ↔ Along step P s as :=
  throughout_iff step (D := fun _ _ => True) hgood (fun s a h _ => hiff s a h)
    (fun s a h _ hP => hkeep s a h hP) h0 (along_of_forall step fun _ _ _ => trivial)

/-- What a step keeps exactly when it meets `P` holds throughout exactly the runs that meet `P`
all along. -/
theorem throughout_invariant_iff {I : σ → Prop} {P : σ → α → Prop}
    (hiff : ∀ s a, I s → (I (step s a) ↔ P s a)) {s : σ} {as : List α} (h0 : I s) :
    Throughout step I s as ↔ Along step P s as :=
  throughout_iff_along step (fun _ h => h) hiff (fun s a h hP => (hiff s a h).mpr hP) h0

/-- A condition that does not look at the state holds along a run when every step meets it. -/
theorem along_iff_forall {Q : α → Prop} {s : σ} {as : List α} :
    Along step (fun _ a => Q a) s as ↔ ∀ a ∈ as, Q a := by
  induction as generalizing s with
  | nil => exact iff_of_true trivial fun _ h => absurd h List.not_mem_nil
  | cons a as ih =>
      rw [List.forall_mem_cons]
      exact and_congr_right fun _ => ih

/-! ## Two machines -/

/-- Two machines that keep in step stay so. -/
theorem related {τ : Type} {step' : τ → α → τ} {R : σ → τ → Prop}
    (hstep : ∀ s t a, R s t → R (step s a) (step' t a)) {s : σ} {t : τ} (h : R s t)
    (as : List α) : R (after step s as) (after step' t as) := by
  induction as generalizing s t with
  | nil => exact h
  | cons a as ih => exact ih (hstep s t a h)

/-! ## Switches -/

/-- Some step switches on, and none after it switches off. -/
def SwitchedOn (On Off : α → Prop) (as : List α) : Prop :=
  ∃ past a rest, as = past ++ a :: rest ∧ On a ∧ ∀ b ∈ rest, ¬ Off b

theorem switchedOn_cons {On Off : α → Prop} {a : α} {as : List α} :
    SwitchedOn On Off (a :: as) ↔ SwitchedOn On Off as ∨ (On a ∧ ∀ b ∈ as, ¬ Off b) := by
  constructor
  · rintro ⟨past, b, rest, has, hon, hoff⟩
    cases past with
    | nil =>
        obtain ⟨rfl, rfl⟩ := List.cons.inj has
        exact Or.inr ⟨hon, hoff⟩
    | cons c past => exact Or.inl ⟨past, b, rest, (List.cons.inj has).2, hon, hoff⟩
  · rintro (⟨past, b, rest, rfl, hon, hoff⟩ | ⟨hon, hoff⟩)
    · exact ⟨a :: past, b, rest, rfl, hon, hoff⟩
    · exact ⟨[], a, as, rfl, hon, hoff⟩

/-- Where a step leaves a switch on exactly when it switches it on, or finds it on and does not
switch it off, a run leaves it as the last step that switched it did. -/
theorem switched_iff {I : σ → Prop} {On Off : α → Prop}
    (hstep : ∀ s a, I (step s a) ↔ On a ∨ (I s ∧ ¬ Off a)) {s : σ} {as : List α} :
    I (after step s as) ↔ SwitchedOn On Off as ∨ (I s ∧ ∀ a ∈ as, ¬ Off a) := by
  induction as generalizing s with
  | nil =>
      constructor
      · intro h
        exact Or.inr ⟨h, List.forall_mem_nil _⟩
      · rintro (⟨past, a, rest, has, -⟩ | ⟨h, -⟩)
        · exact absurd has.symm (List.append_ne_nil_of_right_ne_nil _ (List.cons_ne_nil _ _))
        · exact h
  | cons a as ih =>
      rw [after_cons, ih, hstep, switchedOn_cons, List.forall_mem_cons]
      constructor
      · rintro (h | ⟨hon | ⟨hI, ha⟩, has⟩)
        · exact Or.inl (Or.inl h)
        · exact Or.inl (Or.inr ⟨hon, has⟩)
        · exact Or.inr ⟨hI, ha, has⟩
      · rintro ((h | ⟨hon, has⟩) | ⟨hI, ha, has⟩)
        · exact Or.inl h
        · exact Or.inr ⟨Or.inl hon, has⟩
        · exact Or.inr ⟨Or.inr ⟨hI, ha⟩, has⟩

/-! ## Counting steps -/

/-- How many of the steps meet `p`. -/
def tally (p : σ → α → Bool) : σ → List α → Nat
  | _, [] => 0
  | s, a :: as => tally p (step s a) as + (p s a).toNat

section

variable {step} {τ : Type}

theorem counter_after {p : σ → α → Bool} (counter : σ → UInt64)
    (hstep : ∀ s a, counter (step s a) = counter s + UInt64.ofNat (p s a).toNat) (s : σ)
    (as : List α) : counter (after step s as) = counter s + UInt64.ofNat (tally step p s as) := by
  induction as generalizing s with
  | nil => simp [tally]
  | cons a as ih =>
      rw [after_cons, ih, hstep, tally, UInt64.ofNat_add, UInt64.add_assoc,
        UInt64.add_comm (UInt64.ofNat (p s a).toNat)]

theorem tally_true (s : σ) (as : List α) : tally step (fun _ _ => true) s as = as.length := by
  induction as generalizing s with
  | nil => rfl
  | cons a as ih => simp [tally, ih]

theorem tally_forget (p : α → Bool) (s : σ) (as : List α) :
    tally step (fun _ a => p a) s as = as.countP p := by
  induction as generalizing s with
  | nil => rfl
  | cons a as ih =>
      simp only [tally, ih, List.countP_cons]
      cases p a <;> rfl

/-- Two conditions that share no step. -/
theorem tally_add {p q r : σ → α → Bool}
    (h : ∀ s a, (p s a).toNat + (q s a).toNat = (r s a).toNat) (s : σ) (as : List α) :
    tally step p s as + tally step q s as = tally step r s as := by
  induction as generalizing s with
  | nil => rfl
  | cons a as ih =>
      have hhere := h s a
      have hthere := ih (step s a)
      simp only [tally]
      omega

theorem tally_map {step' : τ → α → τ} {f : σ → τ} (hstep : ∀ s a, f (step s a) = step' (f s) a)
    (p : τ → α → Bool) (s : σ) (as : List α) :
    tally step (fun s a => p (f s) a) s as = tally step' p (f s) as := by
  induction as generalizing s with
  | nil => rfl
  | cons a as ih => rw [tally, tally, ih, hstep]

end

end Run

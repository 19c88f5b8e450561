/-
# `Cognos.Lib.Traced` — programs with a record of what happens

A program that may fail, and leaves a record: events, one after the other.  What it meets (an
answer, the outcome of a call) may depend on all that has happened before.

    Justified        every event is justified by what is before it
    justified_iff    the same, event by event
    Triple           from a past with `P`, where all new events meet `D`, every new event is
                     justified, and a program that ends well ends with `Q`
    Triple.bind …    a rule for each way to make a program

`D` is what is granted of the world, `J` what is to be shown of the program.
-/
import Mathlib.Data.List.Basic

/-- From what has happened so far: how a program ends, and what happens meanwhile. -/
def Traced (ε E α : Type) : Type := List E → Except ε α × List E

namespace Traced

variable {ε E α β : Type}

/-- The event of an answer, where the answer may depend on the past. -/
def ask (answer : List E → α) (event : α → E) : Traced ε E α := fun past =>
  (.ok (answer past), [event (answer past)])

def emit (e : E) : Traced ε E Unit := ask (fun _ => ()) fun _ => e

/-- A call that leaves no event. -/
def act (f : List E → Except ε α) : Traced ε E α := fun past => (f past, [])

def raise (x : ε) : Traced ε E α := act fun _ => .error x

def done (a : α) : Traced ε E α := act fun _ => .ok a

def andThen (m : Traced ε E α) (k : α → Traced ε E β) : Traced ε E β := fun past =>
  match m past with
  | (.error x, es) => (.error x, es)
  | (.ok a, es) => ((k a (past ++ es)).1, es ++ (k a (past ++ es)).2)

instance : Monad (Traced ε E) where
  pure := done
  bind := andThen

/-- One program for each element, until one fails. -/
def each (f : α → Traced ε E β) : List α → Traced ε E (List β)
  | [] => pure []
  | a :: as => do
      let b ← f a
      let bs ← each f as
      return b :: bs

/-- All that happens from the start on. -/
def events (m : Traced ε E α) : List E := (m []).2

/-! ## Events and their past -/

/-- What stays true whatever happens next. -/
def Lasting (F : List E → Prop) : Prop := ∀ past es, F past → F (past ++ es)

theorem lasting_exists_mem (Q : E → Prop) : Lasting fun past => ∃ e ∈ past, Q e := by
  rintro past es ⟨e, he, hQ⟩
  exact ⟨e, List.mem_append_left es he, hQ⟩

/-- Each of the events that follow a past is justified by what is before it. -/
def Justified (J : List E → E → Prop) : List E → List E → Prop
  | _, [] => True
  | past, e :: es => J past e ∧ Justified J (past ++ [e]) es

theorem justified_append {J : List E → E → Prop} {past es es' : List E}
    (h : Justified J past es) (h' : Justified J (past ++ es) es') :
    Justified J past (es ++ es') := by
  induction es generalizing past with
  | nil => simpa using h'
  | cons e es ih => exact ⟨h.1, ih h.2 (by simpa using h')⟩

theorem justified_iff {J : List E → E → Prop} {past es : List E} :
    Justified J past es ↔
      ∀ before e after, es = before ++ e :: after → J (past ++ before) e := by
  induction es generalizing past with
  | nil =>
      refine iff_of_true trivial fun before e after h => ?_
      exact absurd h.symm (List.append_ne_nil_of_right_ne_nil _ (List.cons_ne_nil _ _))
  | cons e es ih =>
      constructor
      · rintro ⟨he, hes⟩ before e' after h
        cases before with
        | nil =>
            obtain ⟨rfl, -⟩ := List.cons.inj h
            rwa [List.append_nil]
        | cons b before =>
            obtain ⟨rfl, hrest⟩ := List.cons.inj h
            have hrec := ih.mp hes before e' after hrest
            rwa [List.append_assoc] at hrec
      · intro h
        refine ⟨?_, ih.mpr fun before e' after hrest => ?_⟩
        · have hfirst := h [] e es rfl
          rwa [List.append_nil] at hfirst
        · rw [List.append_assoc]
          exact h (e :: before) e' after (congrArg (e :: ·) hrest)

/-! ## Triples -/

section Triples

variable (D : E → Prop) (J : List E → E → Prop)

/-- From a past with `P`, where all new events meet `D`: every new event is justified, and if
the program ends well, it ends with `Q`. -/
def Triple (P : List E → Prop) (m : Traced ε E α) (Q : α → List E → Prop) : Prop :=
  ∀ past, P past → (∀ e ∈ (m past).2, D e) →
    Justified J past (m past).2 ∧ ∀ a, (m past).1 = .ok a → Q a (past ++ (m past).2)

variable {D J} {P P' : List E → Prop} {m : Traced ε E α} {k : α → Traced ε E β}

namespace Triple

theorem mono {Q Q' : α → List E → Prop} (h : Triple D J P m Q) (hP : ∀ past, P' past → P past)
    (hQ : ∀ a past, Q a past → Q' a past) : Triple D J P' m Q' := by
  intro past hpast hD
  obtain ⟨hjust, hends⟩ := h past (hP past hpast) hD
  exact ⟨hjust, fun a ha => hQ a _ (hends a ha)⟩

theorem act {f : List E → Except ε α} {Q : α → List E → Prop}
    (h : ∀ past a, P past → f past = .ok a → Q a past) :
    Triple D J P (Traced.act f) Q := by
  intro past hpast _
  refine ⟨trivial, fun a ha => ?_⟩
  show Q a (past ++ [])
  rw [List.append_nil]
  exact h past a hpast ha

theorem raise {x : ε} {Q : α → List E → Prop} : Triple D J P (Traced.raise x) Q :=
  act fun _ _ _ h => by cases h

theorem pure {a : α} {Q : α → List E → Prop} (h : ∀ past, P past → Q a past) :
    Triple D J P (Pure.pure a : Traced ε E α) Q :=
  act fun past b hpast hb => by
    cases hb
    exact h past hpast

theorem ask {answer : List E → α} {event : α → E} {Q : α → List E → Prop}
    (h : ∀ past a, P past → D (event a) → J past (event a) ∧ Q a (past ++ [event a])) :
    Triple D J P (Traced.ask answer event : Traced ε E α) Q := by
  intro past hpast hD
  obtain ⟨hjust, hends⟩ := h past (answer past) hpast (hD _ (List.mem_singleton_self _))
  refine ⟨⟨hjust, trivial⟩, fun a ha => ?_⟩
  obtain rfl : answer past = a := Except.ok.inj ha
  exact hends

theorem emit {e : E} {Q : Unit → List E → Prop}
    (h : ∀ past, P past → D e → J past e ∧ Q () (past ++ [e])) :
    Triple D J P (Traced.emit e : Traced ε E Unit) Q :=
  ask fun past _ => h past

theorem bind {M : α → List E → Prop} {Q : β → List E → Prop} (hm : Triple D J P m M)
    (hk : ∀ a, Triple D J (M a) (k a) Q) : Triple D J P (m >>= k) Q := by
  intro past hpast hD
  show Justified J past (andThen m k past).2 ∧ ∀ b, (andThen m k past).1 = .ok b →
    Q b (past ++ (andThen m k past).2)
  replace hD : ∀ e ∈ (andThen m k past).2, D e := hD
  have hfirst := hm past hpast
  unfold andThen at hD ⊢
  cases hrun : m past with
  | mk ends es =>
      rw [hrun] at hfirst hD
      cases ends with
      | error x =>
          obtain ⟨hjust, -⟩ := hfirst hD
          refine ⟨hjust, fun b hb => ?_⟩
          cases hb
      | ok a =>
          obtain ⟨hjust, hends⟩ := hfirst fun e he => hD e (List.mem_append_left _ he)
          obtain ⟨hjust', hends'⟩ := hk a (past ++ es) (hends a rfl)
            fun e he => hD e (List.mem_append_right _ he)
          refine ⟨justified_append hjust hjust', fun b hb => ?_⟩
          rw [← List.append_assoc]
          exact hends' b hb

/-- What lasts is still so afterwards. -/
theorem frame {Q : α → List E → Prop} {F : List E → Prop} (hF : Lasting F)
    (h : Triple D J P m Q) :
    Triple D J (fun past => P past ∧ F past) m fun a past => Q a past ∧ F past := by
  intro past hpast hD
  obtain ⟨hjust, hends⟩ := h past hpast.1 hD
  exact ⟨hjust, fun a ha => ⟨hends a ha, hF past _ hpast.2⟩⟩

/-- A loop: `I` is kept, and what each round leaves behind lasts. -/
theorem each {I : List E → Prop} {L : β → List E → Prop} {f : α → Traced ε E β} {as : List α}
    (hL : ∀ b, Lasting (L b))
    (h : ∀ a ∈ as, Triple D J I (f a) fun b past => I past ∧ L b past) :
    Triple D J I (Traced.each f as) fun bs past => I past ∧ ∀ b ∈ bs, L b past := by
  induction as with
  | nil => exact pure fun past hI => ⟨hI, fun b hb => by cases hb⟩
  | cons a as ih =>
      obtain ⟨ha, hrest⟩ := List.forall_mem_cons.mp h
      refine bind ha fun b => bind (frame (hL b) (ih hrest)) fun bs => pure ?_
      rintro past ⟨⟨hI, hbs⟩, hb⟩
      exact ⟨hI, List.forall_mem_cons.mpr ⟨hb, hbs⟩⟩

end Triple

end Triples

end Traced

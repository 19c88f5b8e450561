/-
# `Cognos.Agents.IndexerLoop` — the memory agent's loop over the index queue

`_indexer_loop`: an iteration reads the queue file, overwrites it with nothing, and hands the
paths on the lines it has read to `_index_file`, but none twice.  Others append to the file
meanwhile, so a run is any sequence of appends and of the loop's own steps.

    Kept               every path queued was handed over by an iteration that started later, or
                       still will be if the loop goes on
    kept_iff           what that says of the state: where the paths wait
    kept_step_iff      the condition on a step that keeps it so
    paths_handed_iff   the runs that keep every path throughout

The file is the list of its characters, and an iteration starts with its read.  A call that raises,
an undecodable file and a cancellation all stop the loop; what `_index_file` does with a path is
not looked into.
-/
import Mathlib
import Cognos.Lib.PyLines
import Cognos.Lib.Run

namespace IndexerLoop

open PyText
open Text (Whole whole_nil whole_line)

/-! ## The loop -/

/-- Where the loop is: before a line of its iteration, or between two iterations when none is left;
past the read and not yet at the overwrite; stopped. -/
inductive Phase
  | lines (rest : List String)
  | read (text : List Char)
  | stopped
deriving DecidableEq

/-- The queue file, the loop, how many iterations have started, and the paths that were queued and
not handed to `_index_file` by an iteration that started since, each with the iterations that had
started by then. -/
structure Loop where
  queue : Option (List Char)
  processed : List String
  phase : Phase
  iterations : Nat
  owed : List (String × Nat)

/-- How the overwrite ends; one that fails has emptied the file or not. -/
inductive Overwrite
  | done
  | refused
  | broken

inductive Act
  | append (path : String)
  | read (works : Bool)
  | overwrite (outcome : Overwrite)
  | line
  | stop

def Act.OfLoop : Act → Prop
  | .append _ => False
  | _ => True

namespace Loop

def start : Loop := ⟨none, [], .lines [], 0, []⟩

def text (s : Loop) : List Char := s.queue.getD []

/-- The queue is overwritten; the lines read before are those of the iteration, unless it fails. -/
def clear (s : Loop) (text : List Char) : Overwrite → Loop
  | .done => { s with queue := some [], phase := .lines (splitlines text) }
  | .refused => { s with phase := .lines [] }
  | .broken => { s with queue := some [], phase := .lines [] }

/-- The body of the inner loop. -/
def process (s : Loop) (pathStr : String) (rest : List String) : Loop :=
  if pathStr = "" ∨ pathStr ∈ s.processed then { s with phase := .lines rest }
  else { s with
    processed := pathStr :: s.processed
    phase := .lines rest
    owed := s.owed.filter fun e => ¬ (e.1 = pathStr ∧ e.2 < s.iterations) }

def step (s : Loop) : Act → Loop
  | .append path =>
      { s with
        queue := some (s.text ++ (path.toList ++ ['\n']))
        owed := (path, s.iterations) :: s.owed }
  | .read works =>
      match s.phase, s.queue with
      | .lines [], some text =>
          if works then { s with phase := .read text, iterations := s.iterations + 1 } else s
      | _, _ => s
  | .overwrite outcome =>
      match s.phase with
      | .read text => s.clear text outcome
      | _ => s
  | .line =>
      match s.phase with
      | .lines (l :: rest) => s.process (strip l) rest
      | _ => s
  | .stop => { s with phase := .stopped }

/-- Every path is handed over if the loop goes on. -/
def Kept (s : Loop) : Prop :=
  ∃ acts : List Act, (∀ act ∈ acts, act.OfLoop) ∧ (Run.after step s acts).owed = []

/-- A path is queued while the loop runs; it is a line of its own, it was not handed over before,
and it is on no line of the iteration that is at its lines.  Nothing is queued between the read
and the overwrite, and the overwrite does not break with paths outstanding.  The loop stops only
when nothing is outstanding. -/
def Careful (s : Loop) : Act → Prop
  | .append path =>
      ReadsBack path ∧ path ∉ s.processed ∧
        match s.phase with
        | .lines rest => path ∉ named rest
        | .read _ => True
        | .stopped => False
  | .overwrite .done => ∀ text, s.phase = .read text → s.text = text
  | .overwrite .broken => ∀ text, s.phase = .read text → s.owed = []
  | .stop => s.owed = []
  | _ => True

/-! ## Where a path waits -/

/-- A path that is owed will be handed over: it was not before, and it is on a line of this
iteration, which started since it was queued, or else on a line of the file. -/
def Waits (s : Loop) (e : String × Nat) : Prop :=
  match s.phase with
  | .lines rest =>
      e.1 ∉ s.processed ∧
        (e.1 ∈ named rest ∧ e.2 < s.iterations ∨
          e.1 ∉ named rest ∧ e.1 ∈ named (splitlines s.text))
  | .read _ => e.1 ∉ s.processed ∧ e.1 ∈ named (splitlines s.text)
  | .stopped => False

/-- What every step keeps. -/
structure Placed (s : Loop) : Prop where
  whole : Whole s.text
  started : ∀ e ∈ s.owed, e.2 ≤ s.iterations
  reading : ∀ text, s.phase = .read text →
    text <+: s.text ∧ Whole text ∧ ((∃ e ∈ s.owed, e.2 = s.iterations) ↔ s.text ≠ text)

structure Sound (s : Loop) : Prop where
  placed : s.Placed
  waits : ∀ e ∈ s.owed, s.Waits e

theorem sound_start : Sound start where
  placed := ⟨whole_nil, fun _ h => absurd h List.not_mem_nil, fun _ h => Phase.noConfusion h⟩
  waits := fun _ h => absurd h List.not_mem_nil

/-! ## What every step keeps -/

variable {s : Loop}

theorem text_append (path : String) :
    (s.step (.append path)).text = s.text ++ (path.toList ++ ['\n']) := rfl

theorem placed_append (h : s.Placed) (path : String) : (s.step (.append path)).Placed where
  whole := h.whole.append (whole_line _)
  started := List.forall_mem_cons.mpr ⟨le_refl _, h.started⟩
  reading := by
    intro text hphase
    obtain ⟨hfront, hwhole, -⟩ := h.reading text hphase
    refine ⟨hfront.trans (List.prefix_append _ _), hwhole, ?_⟩
    refine iff_of_true ⟨_, List.mem_cons_self, rfl⟩ fun heq => ?_
    have hlength := hfront.length_le
    rw [← heq, text_append] at hlength
    simp only [List.length_append, List.length_singleton] at hlength
    omega

theorem placed_read (h : s.Placed) (works : Bool) : (s.step (.read works)).Placed := by
  rw [step]
  split
  · next text hphase hqueue =>
      split
      · have htext : s.text = text := by rw [Loop.text, hqueue, Option.getD_some]
        refine ⟨h.whole, fun e he => (h.started e he).trans (Nat.le_succ _), ?_⟩
        rintro text' heq
        obtain rfl := Phase.read.inj heq
        refine ⟨htext ▸ List.prefix_refl _, htext ▸ h.whole, ?_⟩
        refine iff_of_false ?_ fun hne => hne htext
        rintro ⟨e, he, heq⟩
        exact absurd (h.started e he) (by simp only at heq; omega)
      · exact h
  · exact h

theorem placed_overwrite (h : s.Placed) (outcome : Overwrite) :
    (s.step (.overwrite outcome)).Placed := by
  rw [step]
  split
  · next text hphase =>
      cases outcome with
      | done => exact ⟨whole_nil, h.started, fun _ heq => Phase.noConfusion heq⟩
      | refused => exact ⟨h.whole, h.started, fun _ heq => Phase.noConfusion heq⟩
      | broken => exact ⟨whole_nil, h.started, fun _ heq => Phase.noConfusion heq⟩
  · exact h

theorem placed_line (h : s.Placed) : (s.step .line).Placed := by
  rw [step]
  split
  · next l rest hphase =>
      rw [process]
      split
      · exact ⟨h.whole, h.started, fun _ heq => Phase.noConfusion heq⟩
      · refine ⟨h.whole, fun e he => ?_, fun _ heq => Phase.noConfusion heq⟩
        exact h.started e (List.mem_of_mem_filter he)
  · exact h

theorem placed_step (h : s.Placed) (act : Act) : (s.step act).Placed := by
  cases act with
  | append path => exact placed_append h path
  | read works => exact placed_read h works
  | overwrite outcome => exact placed_overwrite h outcome
  | line => exact placed_line h
  | stop => exact ⟨h.whole, h.started, fun _ heq => Phase.noConfusion heq⟩

/-! ## Where paths wait after a step -/

theorem waits_lines {rest : List String} (hphase : s.phase = .lines rest) {e : String × Nat} :
    s.Waits e ↔ e.1 ∉ s.processed ∧
      (e.1 ∈ named rest ∧ e.2 < s.iterations ∨
        e.1 ∉ named rest ∧ e.1 ∈ named (splitlines s.text)) := by
  rw [Waits, hphase]

theorem waits_read {text : List Char} (hphase : s.phase = .read text) {e : String × Nat} :
    s.Waits e ↔ e.1 ∉ s.processed ∧ e.1 ∈ named (splitlines s.text) := by
  rw [Waits, hphase]

theorem not_waits_stopped (hphase : s.phase = .stopped) (e : String × Nat) : ¬ s.Waits e := by
  rw [Waits, hphase]
  exact not_false

/-- The paths of an appended file: those it had, and the one appended if it reads back. -/
theorem mem_named_append (h : s.Placed) {path t : String} :
    t ∈ named (splitlines (s.step (.append path)).text) ↔
      t ∈ named (splitlines s.text) ∨ t ∈ named (splitlines (path.toList ++ ['\n'])) := by
  rw [text_append, named_append h.whole, List.mem_append]

/-- A path that waits still does after an append. -/
theorem waits_append_of_waits (h : s.Placed) {path : String} {e : String × Nat} (he : s.Waits e) :
    (s.step (.append path)).Waits e := by
  cases hphase : s.phase with
  | lines rest =>
      have hafter : (s.step (.append path)).phase = .lines rest := hphase
      rw [waits_lines hafter, mem_named_append h]
      obtain ⟨hnew, hplace⟩ := (waits_lines hphase).mp he
      exact ⟨hnew, hplace.imp_right fun hfile => ⟨hfile.1, Or.inl hfile.2⟩⟩
  | read text =>
      have hafter : (s.step (.append path)).phase = .read text := hphase
      rw [waits_read hafter, mem_named_append h]
      obtain ⟨hnew, hplace⟩ := (waits_read hphase).mp he
      exact ⟨hnew, Or.inl hplace⟩
  | stopped => exact absurd he (not_waits_stopped hphase e)

theorem waits_appended_iff (h : s.Placed) (path : String) :
    (s.step (.append path)).Waits (path, s.iterations) ↔ s.Careful (.append path) := by
  have hreads : path ∈ named (splitlines (s.step (.append path)).text) ↔ ReadsBack path := by
    rw [mem_named_append h, mem_named_line]
    exact or_iff_right_of_imp readsBack_of_mem_named
  rw [Careful]
  cases hphase : s.phase with
  | lines rest =>
      have hafter : (s.step (.append path)).phase = .lines rest := hphase
      rw [waits_lines hafter, hreads]
      constructor
      · rintro ⟨hnew, ⟨-, hlt⟩ | ⟨hrest, hplace⟩⟩
        · exact absurd hlt (lt_irrefl _)
        · exact ⟨hplace, hnew, hrest⟩
      · rintro ⟨hplace, hnew, hrest⟩
        exact ⟨hnew, Or.inr ⟨hrest, hplace⟩⟩
  | read text =>
      have hafter : (s.step (.append path)).phase = .read text := hphase
      rw [waits_read hafter, hreads]
      exact ⟨fun hw => ⟨hw.2, hw.1, trivial⟩, fun hw => ⟨hw.2.1, hw.1⟩⟩
  | stopped =>
      have hafter : (s.step (.append path)).phase = .stopped := hphase
      exact iff_of_false (not_waits_stopped hafter _) fun hw => hw.2.2

/-- Between two iterations. -/
theorem waits_between (hphase : s.phase = .lines []) {e : String × Nat} :
    s.Waits e ↔ e.1 ∉ s.processed ∧ e.1 ∈ named (splitlines s.text) := by
  rw [waits_lines hphase, named_nil]
  simp only [List.not_mem_nil, false_and, not_false_eq_true, true_and, false_or]

theorem waits_step_read (works : Bool) (e : String × Nat) :
    (s.step (.read works)).Waits e ↔ s.Waits e := by
  rw [step]
  split
  · next text hphase hqueue =>
      split
      · rw [waits_between hphase]
        exact waits_read rfl
      · exact Iff.rfl
  · exact Iff.rfl

/-- The lines an iteration has read take the place of those of the file. -/
theorem waits_done {text : List Char} {e : String × Nat} :
    (s.clear text .done).Waits e ↔
      e.1 ∉ s.processed ∧ e.1 ∈ named (splitlines text) ∧ e.2 < s.iterations := by
  have hempty : e.1 ∉ named (splitlines (s.clear text .done).text) := List.not_mem_nil
  rw [waits_lines rfl]
  simp only [hempty, and_false, or_false]
  exact Iff.rfl

theorem waits_refused {text : List Char} (hphase : s.phase = .read text) {e : String × Nat} :
    (s.clear text .refused).Waits e ↔ s.Waits e := by
  rw [waits_read hphase]
  exact waits_between rfl

theorem not_waits_broken (text : List Char) (e : String × Nat) :
    ¬ (s.clear text .broken).Waits e := by
  rw [waits_between rfl]
  exact fun hw => List.not_mem_nil hw.2

/-- The path on the line at hand is handed over. -/
def Handed (s : Loop) (pathStr : String) : Prop := pathStr ≠ "" ∧ pathStr ∉ s.processed

theorem process_skipped {pathStr : String} (h : ¬ s.Handed pathStr) (rest : List String) :
    s.process pathStr rest = { s with phase := .lines rest } := by
  refine if_pos ?_
  by_contra hnot
  exact h (not_or.mp hnot)

theorem process_handed {pathStr : String} (h : s.Handed pathStr) (rest : List String) :
    s.process pathStr rest = { s with
      processed := pathStr :: s.processed
      phase := .lines rest
      owed := s.owed.filter fun e => ¬ (e.1 = pathStr ∧ e.2 < s.iterations) } :=
  if_neg (not_or.mpr h)

theorem mem_owed_process {pathStr : String} {rest : List String} {e : String × Nat} :
    e ∈ (s.process pathStr rest).owed ↔
      e ∈ s.owed ∧ ¬ (s.Handed pathStr ∧ e.1 = pathStr ∧ e.2 < s.iterations) := by
  by_cases hhanded : s.Handed pathStr
  · rw [process_handed hhanded]
    simp only [List.mem_filter, decide_eq_true_eq, hhanded, true_and]
  · rw [process_skipped hhanded]
    simp only [hhanded, false_and, not_false_eq_true, and_true]

/-- Of the paths that wait, the one on the line at hand does no longer. -/
theorem waits_process {l : String} {rest : List String} (hphase : s.phase = .lines (l :: rest))
    {e : String × Nat} :
    (s.process (strip l) rest).Waits e ↔ s.Waits e ∧ ¬ (s.Handed (strip l) ∧ e.1 = strip l) := by
  by_cases hhanded : s.Handed (strip l)
  · rw [process_handed hhanded, waits_lines rfl, waits_lines hphase, mem_named_cons]
    rcases eq_or_ne e.1 (strip l) with heq | hne
    · exact iff_of_false (fun hw => hw.1 (heq ▸ List.mem_cons_self)) fun hw => hw.2 ⟨hhanded, heq⟩
    · simp only [List.mem_cons, hne, and_false, false_or, not_false_eq_true, and_true]
      exact Iff.rfl
  · have hold : e.1 ∉ s.processed → ¬ (strip l ≠ "" ∧ e.1 = strip l) := by
      rintro hnew ⟨hblank, heq⟩
      exact hhanded ⟨hblank, heq ▸ hnew⟩
    rw [process_skipped hhanded, waits_lines rfl, waits_lines hphase, mem_named_cons]
    simp only [hhanded, false_and, not_false_eq_true, and_true]
    refine and_congr_right fun hnew => ?_
    rw [or_iff_right (hold hnew)]
    exact Iff.rfl

/-! ## What the loop can still do -/

/-- A path that does not wait stays owed, whatever the loop does. -/
theorem stays_owed (h : s.Placed) {act : Act} (hloop : act.OfLoop) {e : String × Nat}
    (he : e ∈ s.owed) (hnot : ¬ s.Waits e) :
    e ∈ (s.step act).owed ∧ ¬ (s.step act).Waits e := by
  cases act with
  | append path => exact absurd hloop not_false
  | read works =>
      refine ⟨?_, mt (waits_step_read works e).mp hnot⟩
      rw [step]
      split
      · split <;> exact he
      · exact he
  | overwrite outcome =>
      rw [step]
      split
      · next text hphase =>
          cases outcome with
          | done =>
              refine ⟨he, fun hw => hnot ?_⟩
              obtain ⟨hnew, hmem, -⟩ := waits_done.mp hw
              obtain ⟨⟨behind, hbehind⟩, hwhole, -⟩ := h.reading text hphase
              refine (waits_read hphase).mpr ⟨hnew, ?_⟩
              rw [← hbehind, named_append hwhole]
              exact List.mem_append_left _ hmem
          | refused => exact ⟨he, mt (waits_refused hphase).mp hnot⟩
          | broken => exact ⟨he, not_waits_broken text e⟩
      · exact ⟨he, hnot⟩
  | line =>
      rw [step]
      split
      · next l rest hphase =>
          refine ⟨mem_owed_process.mpr ⟨he, ?_⟩, fun hw => hnot ((waits_process hphase).mp hw).1⟩
          rintro ⟨hhanded, heq, hlt⟩
          refine hnot ((waits_lines hphase).mpr ⟨heq ▸ hhanded.2, Or.inl ⟨?_, hlt⟩⟩)
          exact mem_named_cons.mpr (Or.inl ⟨hhanded.1, heq⟩)
      · exact ⟨he, hnot⟩
  | stop => exact ⟨he, not_waits_stopped rfl e⟩

/-- What is kept waits. -/
theorem waits_of_kept (h : s.Placed) (hkept : s.Kept) : ∀ e ∈ s.owed, s.Waits e := by
  obtain ⟨acts, hloop, hserved⟩ := hkept
  intro e he
  by_contra hnot
  have hafter : e ∈ (Run.after step s acts).owed := by
    induction acts generalizing s with
    | nil => exact he
    | cons act acts ih =>
        obtain ⟨hact, hloop⟩ := List.forall_mem_cons.mp hloop
        obtain ⟨hstays, hblocked⟩ := stays_owed h hact he hnot
        exact ih (placed_step h act) hloop hserved hstays hblocked
  rw [hserved] at hafter
  exact List.not_mem_nil hafter

/-! ## Which steps keep every path -/

theorem waits_append_iff (h : s.Sound) (path : String) :
    (∀ e ∈ (s.step (.append path)).owed, (s.step (.append path)).Waits e) ↔
      s.Careful (.append path) := by
  rw [← waits_appended_iff h.placed path]
  constructor
  · intro hafter
    exact hafter _ List.mem_cons_self
  · intro hnew
    refine List.forall_mem_cons.mpr ⟨hnew, fun e he => ?_⟩
    exact waits_append_of_waits h.placed (h.waits e he)

/-- The overwrite leaves what was read to the iteration's lines: all that is owed, exactly when
nothing was appended since. -/
theorem waits_overwrite_iff (h : s.Sound) (outcome : Overwrite) :
    (∀ e ∈ (s.step (.overwrite outcome)).owed, (s.step (.overwrite outcome)).Waits e) ↔
      s.Careful (.overwrite outcome) := by
  by_cases hreading : ∃ text, s.phase = .read text
  · obtain ⟨text, hphase⟩ := hreading
    have hstep : s.step (.overwrite outcome) = s.clear text outcome := by rw [step, hphase]
    have hsame : ∀ text', s.phase = .read text' → text' = text := by
      intro text' hphase'
      rw [hphase] at hphase'
      exact (Phase.read.inj hphase').symm
    rw [hstep]
    cases outcome with
    | done =>
        obtain ⟨hfront, -, hlate⟩ := h.placed.reading text hphase
        constructor
        · rintro hafter text' hphase'
          rw [hsame text' hphase']
          by_contra hne
          obtain ⟨e, he, heq⟩ := hlate.mpr hne
          exact absurd (waits_done.mp (hafter e he)).2.2 (by omega)
        · intro hcareful e he
          have htext := hcareful text hphase
          obtain ⟨hnew, hmem⟩ := (waits_read hphase).mp (h.waits e he)
          refine waits_done.mpr ⟨hnew, htext ▸ hmem, ?_⟩
          refine lt_of_le_of_ne (h.placed.started e he) fun heq => ?_
          exact hlate.mp ⟨e, he, heq⟩ htext
    | refused =>
        exact iff_of_true (fun e he => (waits_refused hphase).mpr (h.waits e he)) trivial
    | broken =>
        constructor
        · intro hafter text' _
          exact List.eq_nil_iff_forall_not_mem.mpr fun e he =>
            not_waits_broken text e (hafter e he)
        · intro hcareful e he
          have hnone : e ∈ s.owed := he
          rw [hcareful text hphase] at hnone
          exact absurd hnone List.not_mem_nil
  · have hstep : s.step (.overwrite outcome) = s := by
      rw [step]
      split
      · next text hphase => exact absurd ⟨text, hphase⟩ hreading
      · rfl
    rw [hstep]
    refine iff_of_true h.waits ?_
    cases outcome with
    | done => exact fun text hphase => absurd ⟨text, hphase⟩ hreading
    | refused => trivial
    | broken => exact fun text hphase => absurd ⟨text, hphase⟩ hreading

theorem waits_line (h : s.Sound) : ∀ e ∈ (s.step .line).owed, (s.step .line).Waits e := by
  rw [step]
  split
  · next l rest hphase =>
      intro e he
      obtain ⟨he, hkept⟩ := mem_owed_process.mp he
      have hwaits := h.waits e he
      refine (waits_process hphase).mpr ⟨hwaits, ?_⟩
      rintro ⟨hhanded, heq⟩
      obtain ⟨-, ⟨-, hlt⟩ | ⟨hnot, -⟩⟩ := (waits_lines hphase).mp hwaits
      · exact hkept ⟨hhanded, heq, hlt⟩
      · exact hnot (mem_named_cons.mpr (Or.inl ⟨hhanded.1, heq⟩))
  · exact h.waits

theorem waits_step_iff (h : s.Sound) (act : Act) :
    (∀ e ∈ (s.step act).owed, (s.step act).Waits e) ↔ s.Careful act := by
  cases act with
  | append path => exact waits_append_iff h path
  | read works =>
      refine iff_of_true (fun e he => (waits_step_read works e).mpr (h.waits e ?_)) trivial
      rw [step] at he
      split at he
      · split at he <;> exact he
      · exact he
  | overwrite outcome => exact waits_overwrite_iff h outcome
  | line => exact iff_of_true (waits_line h) trivial
  | stop =>
      constructor
      · intro hafter
        exact List.eq_nil_iff_forall_not_mem.mpr fun e he =>
          not_waits_stopped rfl e (hafter e he)
      · intro hcareful e he
        have hnone : e ∈ s.owed := he
        rw [hcareful] at hnone
        exact absurd hnone List.not_mem_nil

theorem sound_step (h : s.Sound) (act : Act) (hcareful : s.Careful act) : (s.step act).Sound :=
  ⟨placed_step h.placed act, (waits_step_iff h act).mpr hcareful⟩

/-! ## The loop serves what waits -/

/-- The iteration takes its lines one after the other. -/
theorem finish (h : s.Sound) {rest : List String} (hphase : s.phase = .lines rest) :
    ∃ s', Run.after step s (List.replicate rest.length .line) = s' ∧ s'.Sound ∧
      s'.phase = .lines [] ∧ s'.queue = s.queue := by
  induction rest generalizing s with
  | nil => exact ⟨s, rfl, h, hphase, rfl⟩
  | cons l rest ih =>
      have hstep : s.step .line = s.process (strip l) rest := by rw [step, hphase]
      have hnext : (s.step .line).phase = .lines rest ∧ (s.step .line).queue = s.queue := by
        rw [hstep, process]
        split <;> exact ⟨rfl, rfl⟩
      obtain ⟨s', hs', hsound, hdone, hqueue⟩ := ih (sound_step h .line trivial) hnext.1
      exact ⟨s', hs', hsound, hdone, hqueue.trans hnext.2⟩

theorem ofLoop_replicate (n : Nat) : ∀ act ∈ List.replicate n Act.line, act.OfLoop := by
  intro act hact
  rw [List.eq_of_mem_replicate hact]
  trivial

/-- Nothing is owed between two iterations when the queue is empty. -/
theorem owed_of_empty (h : s.Sound) (hphase : s.phase = .lines []) (htext : s.text = []) :
    s.owed = [] := by
  refine List.eq_nil_iff_forall_not_mem.mpr fun e he => ?_
  have hmem := ((waits_between hphase).mp (h.waits e he)).2
  rw [htext] at hmem
  exact List.not_mem_nil hmem

/-- Between two iterations, one more serves all. -/
theorem kept_between (h : s.Sound) (hphase : s.phase = .lines []) : s.Kept := by
  cases hqueue : s.queue with
  | none =>
      have htext : s.text = [] := by rw [text, hqueue, Option.getD_none]
      exact ⟨[], List.forall_mem_nil _, owed_of_empty h hphase htext⟩
  | some queued =>
      have hread : s.step (.read true) =
          { s with phase := .read queued, iterations := s.iterations + 1 } := by
        rw [step, hphase, hqueue]
        rfl
      have hsound := sound_step h (.read true) trivial
      have hcareful : (s.step (.read true)).Careful (.overwrite .done) := by
        intro text' heq
        rw [hread] at heq ⊢
        rw [text, hqueue, Option.getD_some]
        exact Phase.read.inj heq
      have hclear : (s.step (.read true)).step (.overwrite .done) =
          (s.step (.read true)).clear queued .done := by rw [hread, step]
      have hlines : ((s.step (.read true)).step (.overwrite .done)).phase =
          .lines (splitlines queued) := by
        rw [hclear]
        rfl
      obtain ⟨s', hs', hsound', hdone, hempty⟩ :=
        finish (sound_step hsound (.overwrite .done) hcareful) hlines
      refine ⟨.read true :: .overwrite .done ::
        List.replicate (splitlines queued).length .line, ?_, ?_⟩
      · exact List.forall_mem_cons.mpr ⟨trivial,
          List.forall_mem_cons.mpr ⟨trivial, ofLoop_replicate _⟩⟩
      · rw [Run.after_cons, Run.after_cons, hs']
        refine owed_of_empty hsound' hdone ?_
        rw [text, hempty, hclear]
        rfl

/-- Steps of the loop that lead to a state where everything is kept. -/
theorem kept_of_after (acts : List Act) (hloop : ∀ act ∈ acts, act.OfLoop)
    (h : (Run.after step s acts).Kept) : s.Kept := by
  obtain ⟨more, hmore, hserved⟩ := h
  refine ⟨acts ++ more, List.forall_mem_append.mpr ⟨hloop, hmore⟩, ?_⟩
  rw [Run.after_append]
  exact hserved

theorem kept_of_sound (h : s.Sound) : s.Kept := by
  cases hphase : s.phase with
  | lines rest =>
      obtain ⟨s', hs', hsound, hdone, -⟩ := finish h hphase
      refine kept_of_after _ (ofLoop_replicate rest.length) ?_
      rw [hs']
      exact kept_between hsound hdone
  | read text =>
      have hstep : s.step (.overwrite .refused) = s.clear text .refused := by rw [step, hphase]
      refine kept_of_after [.overwrite .refused] (List.forall_mem_singleton.mpr trivial) ?_
      refine kept_between (sound_step h (.overwrite .refused) trivial) ?_
      rw [Run.after_cons, Run.after_nil, hstep]
      rfl
  | stopped =>
      refine ⟨[], List.forall_mem_nil _, List.eq_nil_iff_forall_not_mem.mpr fun e he => ?_⟩
      exact not_waits_stopped hphase e (h.waits e he)

/-- Every path is handed over if the loop goes on, exactly when every path that is owed waits. -/
theorem kept_iff (h : s.Placed) : s.Kept ↔ ∀ e ∈ s.owed, s.Waits e :=
  ⟨waits_of_kept h, fun hwaits => kept_of_sound ⟨h, hwaits⟩⟩

theorem kept_step_iff (h : s.Sound) (act : Act) : (s.step act).Kept ↔ s.Careful act :=
  (kept_iff (placed_step h.placed act)).trans (waits_step_iff h act)

/-- The runs that hand over every path queued: no path is queued again once it was handed over or
is about to be, none comes between a read and the overwrite, and the loop does not stop. -/
theorem paths_handed_iff (acts : List Act) :
    Run.Throughout step Kept start acts ↔ Run.Along step Careful start acts := by
  refine Run.throughout_iff_along step (I := Sound) ?_ ?_ ?_ sound_start
  · intro s h
    exact kept_of_sound h
  · intro s act h
    exact kept_step_iff h act
  · intro s act h hcareful
    exact sound_step h act hcareful

/-- A file that was indexed and is queued again. -/
def changedAgain : List Act :=
  [.append "/a", .read true, .overwrite .done, .line, .append "/a"]

theorem changed_file_not_handed : ¬ Run.Throughout step Kept start changedAgain := by
  intro h
  have hplaced : (Run.after step start changedAgain).Placed :=
    Run.invariant_of_step step (I := Placed) (fun _ act h => placed_step h act)
      sound_start.placed changedAgain
  have hwaits := waits_of_kept hplaced (h _ (List.prefix_refl _)) ("/a", 1)
    (show ("/a", 1) ∈ (Run.after step start changedAgain).owed by decide +kernel)
  have hphase : (Run.after step start changedAgain).phase = .lines [] := by decide +kernel
  have hnew := ((waits_between hphase).mp hwaits).1
  revert hnew
  decide +kernel

end Loop

end IndexerLoop

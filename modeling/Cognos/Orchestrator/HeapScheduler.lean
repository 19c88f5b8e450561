/-
# `Cognos.Orchestrator.HeapScheduler` — the scheduler over its heap

`scheduler.rs` with the heap it keeps its entries in: `SchedEntry`'s order is the priority, and
for equal priorities the earlier time.  Two entries of one priority and one time compare equal,
and then the heap decides; an entry that a clock set back gives an earlier time goes ahead.

    next_abstracts           the heap makes one of the choices `Scheduler` leaves open
    returnsOnce              what is enqueued is returned once, whatever the times
    fifo_of_earlier          and in turn, where the one whose turn it is is the earliest
    notLater_of_inTurn       which is only where no other one is earlier
    earlier_of_increasing    a clock that always moves on makes it so
-/
import Mathlib
import Cognos.Lib.BinaryHeap
import Cognos.Lib.Run
import Cognos.Orchestrator.Effects

namespace Orchestrator

/-! ## The order of entries -/

theorem SchedEntry.le_iff {a b : SchedEntry} :
    a.le b = true ↔
      a.priority < b.priority ∨ (a.priority = b.priority ∧ b.submittedAt ≤ a.submittedAt) := by
  simp [SchedEntry.le]

/-! ## The scheduler -/

/-- `OrchestratorScheduler`, with its heap. -/
structure HeapScheduler where
  queue : Array SchedEntry
  inFlight : List TaskId

namespace HeapScheduler

def new : HeapScheduler := ⟨#[], []⟩

def enqueue (s : HeapScheduler) (entry : SchedEntry) : HeapScheduler :=
  { s with queue := BinaryHeap.push SchedEntry.le s.queue entry }

def next (s : HeapScheduler) : Option (SchedEntry × HeapScheduler) :=
  match BinaryHeap.pop SchedEntry.le s.queue with
  | none => none
  | some (entry, queue) => some (entry, { queue, inFlight := entry.taskId :: s.inFlight })

/-- The entries are a heap. -/
def Ordered (s : HeapScheduler) : Prop := BinaryHeap.IsHeap SchedEntry.le s.queue

theorem ordered_new : new.Ordered := BinaryHeap.isHeap_empty

theorem Ordered.enqueue {s : HeapScheduler} (h : s.Ordered) (entry : SchedEntry) :
    (s.enqueue entry).Ordered :=
  BinaryHeap.isHeap_push @SchedEntry.le_trans SchedEntry.le_total h entry

theorem perm_enqueue (s : HeapScheduler) (entry : SchedEntry) :
    (s.enqueue entry).queue.toList.Perm (entry :: s.queue.toList) :=
  BinaryHeap.perm_push s.queue entry

theorem next_eq_none_iff {s : HeapScheduler} : s.next = none ↔ s.queue.toList = [] := by
  unfold next
  cases h : BinaryHeap.pop SchedEntry.le s.queue with
  | none => exact iff_of_true rfl (BinaryHeap.pop_eq_none_iff.mp h)
  | some p =>
      refine iff_of_false (fun hnone => nomatch hnone) fun hempty => ?_
      rw [BinaryHeap.pop_eq_none_iff.mpr hempty] at h
      cases h

/-- What `next` returns is a greatest entry, and the others stay. -/
theorem Ordered.next {s s' : HeapScheduler} {e : SchedEntry} (h : s.Ordered)
    (hnext : s.next = some (e, s')) :
    s'.Ordered ∧ s.queue.toList.Perm (e :: s'.queue.toList) ∧
      (∀ x ∈ s.queue.toList, x.le e = true) ∧ s'.inFlight = e.taskId :: s.inFlight := by
  unfold HeapScheduler.next at hnext
  cases hpop : BinaryHeap.pop SchedEntry.le s.queue with
  | none =>
      rw [hpop] at hnext
      cases hnext
  | some p =>
      obtain ⟨entry, queue⟩ := p
      rw [hpop] at hnext
      cases hnext
      obtain ⟨hheap, hperm, hmax⟩ :=
        BinaryHeap.pop_spec @SchedEntry.le_trans SchedEntry.le_total h hpop
      exact ⟨hheap, hperm, hmax, rfl⟩

/-! ## The choice among equals -/

/-- The same entries, and the same tasks in flight. -/
structure Abstracts (s : HeapScheduler) (t : OrchestratorScheduler) : Prop where
  queue : s.queue.toList.Perm t.queue
  inFlight : s.inFlight = t.inFlight

theorem abstracts_new : Abstracts new .new := ⟨.refl _, rfl⟩

theorem enqueue_abstracts {s : HeapScheduler} {t : OrchestratorScheduler} (h : Abstracts s t)
    (entry : SchedEntry) : Abstracts (s.enqueue entry) (t.enqueue entry) :=
  ⟨(perm_enqueue s entry).trans (h.queue.cons entry), h.inFlight⟩

/-- What the heap returns is what `OrchestratorScheduler.next` returns for some choice. -/
theorem next_abstracts {s s' : HeapScheduler} {t : OrchestratorScheduler} {e : SchedEntry}
    (hord : s.Ordered) (h : Abstracts s t) (hnext : s.next = some (e, s')) :
    ∃ pick t', t.next pick = some (e, t') ∧ Abstracts s' t' := by
  obtain ⟨-, hperm, hmax, hflight⟩ := hord.next hnext
  have hmem : e ∈ t.queue := h.queue.mem_iff.mp (hperm.mem_iff.mpr List.mem_cons_self)
  have hgreatest : e ∈ t.greatest := by
    refine List.mem_filter.mpr ⟨hmem, List.all_eq_true.mpr fun x hx => ?_⟩
    exact hmax x (h.queue.mem_iff.mpr hx)
  obtain ⟨pick, hlt, hget⟩ := List.mem_iff_getElem.mp hgreatest
  refine ⟨pick, { queue := t.queue.erase e, inFlight := e.taskId :: t.inFlight }, ?_, ?_, ?_⟩
  · unfold OrchestratorScheduler.next
    rw [Nat.mod_eq_of_lt hlt, List.getElem?_eq_getElem hlt, hget]
  · have hrest := (h.queue.symm.trans hperm).erase e
    rw [List.erase_cons_head] at hrest
    exact hrest.symm
  · rw [hflight, h.inFlight]

/-- And where the heap is empty, whatever is chosen finds nothing. -/
theorem next_abstracts_none {s : HeapScheduler} {t : OrchestratorScheduler} (h : Abstracts s t)
    (hnext : s.next = none) (pick : Nat) : t.next pick = none := by
  have hempty : t.queue = [] := by
    have hperm := h.queue
    rw [next_eq_none_iff.mp hnext] at hperm
    exact hperm.nil_eq.symm
  unfold OrchestratorScheduler.next OrchestratorScheduler.greatest
  rw [hempty]
  rfl

end HeapScheduler

/-! ## In turn -/

/-- A call of the scheduler. -/
inductive SchedCall
  | enqueue (entry : SchedEntry)
  | next

/-- A scheduler, and what waits in it in the order in which it was enqueued. -/
structure Line where
  scheduler : HeapScheduler
  waiting : List SchedEntry

namespace Line

def start : Line := ⟨.new, []⟩

def call (l : Line) : SchedCall → Line
  | .enqueue entry => ⟨l.scheduler.enqueue entry, l.waiting ++ [entry]⟩
  | .next =>
      match l.scheduler.next with
      | none => l
      | some (e, scheduler) => ⟨scheduler, l.waiting.erase e⟩

/-- The entry whose turn it is: no priority is higher, and none that was enqueued before it has
the same one. -/
def Turn (waiting : List SchedEntry) (e : SchedEntry) : Prop :=
  (∀ x ∈ waiting, x.priority ≤ e.priority) ∧
    ∃ before after, waiting = before ++ e :: after ∧ ∀ x ∈ before, x.priority < e.priority

/-- `next` returns the entry whose turn it is, and nothing only when nothing waits. -/
def InTurn (l : Line) : SchedCall → Prop
  | .enqueue _ => True
  | .next =>
      match l.scheduler.next with
      | none => l.waiting = []
      | some (e, _) => Turn l.waiting e

/-- The entry whose turn it is has an earlier time than the others of its priority. -/
def Earlier (l : Line) : SchedCall → Prop
  | .enqueue _ => True
  | .next => ∀ e, Turn l.waiting e →
      ∀ x ∈ l.waiting, x.priority = e.priority → x = e ∨ e.submittedAt < x.submittedAt

/-- None of the others of its priority has an earlier time. -/
def NotLater (l : Line) : SchedCall → Prop
  | .enqueue _ => True
  | .next => ∀ e, Turn l.waiting e →
      ∀ x ∈ l.waiting, x.priority = e.priority → e.submittedAt ≤ x.submittedAt

/-- The entries `enqueue` was called with. -/
def enqueued : List SchedCall → List SchedEntry
  | [] => []
  | .enqueue entry :: calls => entry :: enqueued calls
  | .next :: calls => enqueued calls

/-- The entries `next` returned. -/
def returned (l : Line) : List SchedCall → List SchedEntry
  | [] => []
  | c :: calls =>
      match c, l.scheduler.next with
      | .next, some (e, _) => e :: (l.call c).returned calls
      | _, _ => (l.call c).returned calls

/-- Called again and again, `next` has returned all that was enqueued, each entry once. -/
def ReturnsOnce (calls : List SchedCall) : Prop :=
  (start.returned calls ++ (Run.after call start calls).scheduler.queue.toList).Perm
      (enqueued calls) ∧
    ∀ n, (Run.after call start calls).scheduler.queue.size ≤ n →
      (start.returned (calls ++ List.replicate n .next)).Perm (enqueued calls)

/-- Entries leave by priority and, within one, in the order in which they were enqueued; each
leaves once. -/
structure Fifo (calls : List SchedCall) : Prop where
  inTurn : Run.Along call InTurn start calls
  once : ReturnsOnce calls

/-- The scheduler's entries are a heap, and they are those that wait. -/
structure Tracks (l : Line) : Prop where
  ordered : l.scheduler.Ordered
  queue : l.scheduler.queue.toList.Perm l.waiting

theorem tracks_start : start.Tracks := ⟨HeapScheduler.ordered_new, .refl _⟩

theorem call_next_none {l : Line} (h : l.scheduler.next = none) : l.call .next = l := by
  simp only [call, h]

theorem call_next_some {l : Line} {e : SchedEntry} {s : HeapScheduler}
    (h : l.scheduler.next = some (e, s)) : l.call .next = ⟨s, l.waiting.erase e⟩ := by
  simp only [call, h]

theorem Tracks.call {l : Line} (h : l.Tracks) (c : SchedCall) : (l.call c).Tracks := by
  cases c with
  | enqueue entry =>
      refine ⟨h.ordered.enqueue entry, ?_⟩
      refine (HeapScheduler.perm_enqueue _ entry).trans ?_
      exact (h.queue.cons entry).trans (List.perm_append_singleton entry l.waiting).symm
  | next =>
      cases hnext : l.scheduler.next with
      | none =>
          rw [call_next_none hnext]
          exact h
      | some p =>
          obtain ⟨e, s⟩ := p
          obtain ⟨hord, hperm, -, -⟩ := h.ordered.next hnext
          rw [call_next_some hnext]
          refine ⟨hord, ?_⟩
          have hrest := (hperm.symm.trans h.queue).erase e
          rw [List.erase_cons_head] at hrest
          exact hrest

/-- What `next` returns is among those that wait, and none of them is greater. -/
theorem Tracks.next {l : Line} (h : l.Tracks) {e : SchedEntry} {s : HeapScheduler}
    (hnext : l.scheduler.next = some (e, s)) :
    e ∈ l.waiting ∧ ∀ x ∈ l.waiting, x.le e = true := by
  obtain ⟨-, hperm, hmax, -⟩ := h.ordered.next hnext
  refine ⟨h.queue.mem_iff.mp (hperm.mem_iff.mpr List.mem_cons_self), fun x hx => ?_⟩
  exact hmax x (h.queue.mem_iff.mpr hx)

/-! ## Whose turn it is -/

theorem Turn.mem {waiting : List SchedEntry} {e : SchedEntry} (h : Turn waiting e) :
    e ∈ waiting := by
  obtain ⟨-, before, after, rfl, -⟩ := h
  exact List.mem_append_right _ List.mem_cons_self

/-- It is the first entry of its priority. -/
theorem Turn.find {waiting : List SchedEntry} {e : SchedEntry} (h : Turn waiting e) :
    waiting.find? (fun x => decide (e.priority ≤ x.priority)) = some e := by
  obtain ⟨-, before, after, hwaiting, hbefore⟩ := h
  refine List.find?_eq_some_iff_append.mpr ⟨decide_eq_true (le_refl _), before, after, hwaiting, ?_⟩
  intro x hx
  rw [Bool.not_eq_true', decide_eq_false_iff_not]
  exact Nat.not_le.mpr (hbefore x hx)

theorem Turn.unique {waiting : List SchedEntry} {e e' : SchedEntry} (h : Turn waiting e)
    (h' : Turn waiting e') : e = e' := by
  have hsame : e.priority = e'.priority := le_antisymm (h'.1 e h.mem) (h.1 e' h'.mem)
  have hfind := h.find
  rw [hsame] at hfind
  exact Option.some.inj (hfind.symm.trans h'.find)

/-- When something waits, it is the turn of one. -/
theorem exists_turn {waiting : List SchedEntry} (h : waiting ≠ []) : ∃ e, Turn waiting e := by
  induction waiting with
  | nil => exact absurd rfl h
  | cons x xs ih =>
      by_cases hnil : xs = []
      · subst hnil
        refine ⟨x, fun y hy => ?_, [], [], rfl, List.forall_mem_nil _⟩
        obtain rfl := List.mem_singleton.mp hy
        exact le_refl _
      · obtain ⟨e, hmax, before, after, hxs, hbefore⟩ := ih hnil
        by_cases hle : e.priority ≤ x.priority
        · refine ⟨x, List.forall_mem_cons.mpr ⟨le_refl _, fun y hy => ?_⟩, [], xs, rfl,
            List.forall_mem_nil _⟩
          exact (hmax y hy).trans hle
        · have hlt := Nat.not_le.mp hle
          refine ⟨e, List.forall_mem_cons.mpr ⟨hlt.le, hmax⟩, x :: before, after, ?_, ?_⟩
          · rw [hxs, List.cons_append]
          · exact List.forall_mem_cons.mpr ⟨hlt, hbefore⟩

/-- The entry whose turn it is is not greater than what is returned: it can only be as old. -/
theorem Tracks.turn {l : Line} (h : l.Tracks) {e f : SchedEntry} {s : HeapScheduler}
    (hnext : l.scheduler.next = some (e, s)) (hturn : Turn l.waiting f) :
    e.priority = f.priority ∧ e.submittedAt ≤ f.submittedAt := by
  obtain ⟨hmem, hmax⟩ := h.next hnext
  have hge := hturn.1 e hmem
  rcases SchedEntry.le_iff.mp (hmax f hturn.mem) with hlt | ⟨hsame, htime⟩
  · exact absurd hge (Nat.not_le.mpr hlt)
  · exact ⟨hsame.symm, htime⟩

/-- One call: in turn, where the entry whose turn it is is the earliest. -/
theorem Tracks.inTurn {l : Line} (h : l.Tracks) {c : SchedCall} (hearlier : Earlier l c) :
    InTurn l c := by
  cases c with
  | enqueue entry => trivial
  | next =>
      unfold InTurn
      cases hnext : l.scheduler.next with
      | none =>
          have hperm := h.queue
          rw [HeapScheduler.next_eq_none_iff.mp hnext] at hperm
          exact hperm.nil_eq.symm
      | some p =>
          obtain ⟨e, s⟩ := p
          have hmem := (h.next hnext).1
          obtain ⟨f, hturn⟩ := exists_turn (List.ne_nil_of_mem hmem)
          obtain ⟨hsame, htime⟩ := h.turn hnext hturn
          rcases hearlier f hturn e hmem hsame with heq | hlt
          · show Turn l.waiting e
            rw [heq]
            exact hturn
          · exact absurd hlt (Nat.not_lt.mpr htime)

/-- And one that is in turn takes the earliest of its priority. -/
theorem Tracks.notLater {l : Line} (h : l.Tracks) {c : SchedCall} (hin : InTurn l c) :
    NotLater l c := by
  cases c with
  | enqueue entry => trivial
  | next =>
      intro e hturn x hx hsame
      unfold InTurn at hin
      cases hnext : l.scheduler.next with
      | none =>
          rw [hnext] at hin
          rw [hin] at hx
          exact absurd hx (List.not_mem_nil)
      | some p =>
          obtain ⟨e', s⟩ := p
          rw [hnext] at hin
          obtain rfl := hturn.unique hin
          rcases SchedEntry.le_iff.mp ((h.next hnext).2 x hx) with hlt | ⟨-, htime⟩
          · exact absurd hlt (hsame ▸ Nat.lt_irrefl _)
          · exact htime

theorem notLater_of_inTurn {calls : List SchedCall} (h : Run.Along call InTurn start calls) :
    Run.Along call NotLater start calls :=
  Run.along_of_invariant call (fun _ c hl _ => hl.call c) (fun _ _ hl hin => hl.notLater hin)
    tracks_start h

/-- A clock that always moves on. -/
theorem earlier_of_increasing {calls : List SchedCall}
    (h : (enqueued calls).Pairwise fun a b => a.submittedAt < b.submittedAt) :
    Run.Along call Earlier start calls := by
  -- what waits and what is still to come are in the order of their times
  suffices hgen : ∀ l : Line,
      (l.waiting ++ enqueued calls).Pairwise (fun a b => a.submittedAt < b.submittedAt) →
        Run.Along call Earlier l calls from hgen start h
  clear h
  induction calls with
  | nil => exact fun _ _ => trivial
  | cons c calls ih =>
      intro l hl
      cases c with
      | enqueue entry =>
          refine ⟨trivial, ih _ ?_⟩
          show (l.waiting ++ [entry] ++ enqueued calls).Pairwise _
          rw [List.append_assoc]
          exact hl
      | next =>
          refine ⟨fun e hturn x hx hsame => ?_, ih _ ?_⟩
          · obtain ⟨-, before, after, hwaiting, hbefore⟩ := hturn
            have hwait := (List.pairwise_append.mp hl).1
            rw [hwaiting] at hx hwait
            rcases List.mem_append.mp hx with hx | hx
            · exact absurd (hbefore x hx) (hsame ▸ Nat.lt_irrefl _)
            · rcases List.mem_cons.mp hx with rfl | hx
              · exact Or.inl rfl
              · have hafter := (List.pairwise_append.mp hwait).2.1
                exact Or.inr (List.rel_of_pairwise_cons hafter hx)
          · refine hl.sublist (List.Sublist.append_right ?_ _)
            cases hnext : l.scheduler.next with
            | none => rw [call_next_none hnext]
            | some p =>
                rw [call_next_some hnext]
                exact List.erase_sublist

/-! ## Each once -/

theorem enqueued_append (calls more : List SchedCall) :
    enqueued (calls ++ more) = enqueued calls ++ enqueued more := by
  induction calls with
  | nil => rfl
  | cons c calls ih =>
      cases c with
      | enqueue entry => exact congrArg (entry :: ·) ih
      | next => exact ih

theorem enqueued_next (n : Nat) : enqueued (List.replicate n .next) = [] := by
  induction n with
  | zero => rfl
  | succ n ih => exact ih

/-- What was there and what came is what was returned and what is left. -/
theorem Tracks.returned_perm {l : Line} (h : l.Tracks) (calls : List SchedCall) :
    (l.returned calls ++ (Run.after Line.call l calls).scheduler.queue.toList).Perm
      (l.scheduler.queue.toList ++ enqueued calls) := by
  induction calls generalizing l with
  | nil =>
      rw [enqueued, List.append_nil]
      exact .refl _
  | cons c calls ih =>
      have hrest := ih (h.call c)
      cases c with
      | enqueue entry =>
          refine hrest.trans ?_
          refine ((HeapScheduler.perm_enqueue _ entry).append_right _).trans ?_
          exact List.perm_middle.symm
      | next =>
          unfold returned
          rw [Run.after_cons]
          cases hnext : l.scheduler.next with
          | none =>
              rw [call_next_none hnext] at hrest ⊢
              exact hrest
          | some p =>
              obtain ⟨e, s⟩ := p
              obtain ⟨-, hperm, -, -⟩ := h.ordered.next hnext
              refine (hrest.cons e).trans ?_
              rw [call_next_some hnext]
              exact (hperm.append_right _).symm

theorem Tracks.size_next {l : Line} (h : l.Tracks) :
    (l.call .next).scheduler.queue.size = l.scheduler.queue.size - 1 := by
  cases hnext : l.scheduler.next with
  | none =>
      have hempty := congrArg List.length (HeapScheduler.next_eq_none_iff.mp hnext)
      rw [call_next_none hnext]
      rw [Array.length_toList, List.length_nil] at hempty
      omega
  | some p =>
      obtain ⟨e, s⟩ := p
      have hlen := (h.ordered.next hnext).2.1.length_eq
      rw [call_next_some hnext]
      rw [List.length_cons, Array.length_toList, Array.length_toList] at hlen
      exact (Nat.sub_eq_of_eq_add hlen).symm

theorem Tracks.drained {l : Line} (h : l.Tracks) {n : Nat} (hn : l.scheduler.queue.size ≤ n) :
    (Run.after Line.call l (List.replicate n .next)).scheduler.queue.toList = [] := by
  induction n generalizing l with
  | zero => exact List.eq_nil_of_length_eq_zero (Nat.le_zero.mp hn)
  | succ n ih =>
      rw [List.replicate_succ, Run.after_cons]
      refine ih (h.call .next) ?_
      rw [h.size_next]
      omega

theorem tracks_after (calls : List SchedCall) : (Run.after call start calls).Tracks :=
  Run.invariant_of_step call (fun _ c h => h.call c) tracks_start calls

theorem returnsOnce (calls : List SchedCall) : ReturnsOnce calls := by
  have hall := fun more => tracks_start.returned_perm more
  refine ⟨hall calls, fun n hn => ?_⟩
  have hdrained := hall (calls ++ List.replicate n .next)
  rw [Run.after_append, (tracks_after calls).drained hn, List.append_nil, enqueued_append,
    enqueued_next, List.append_nil] at hdrained
  exact hdrained

/-! ## Runs -/

/-- A run whose every `next` finds the entry whose turn it is earlier than the others of its
priority is a run of a queue for each priority. -/
theorem fifo_of_earlier (calls : List SchedCall) (h : Run.Along call Earlier start calls) :
    Fifo calls where
  inTurn := Run.along_of_invariant call (fun _ c hl _ => hl.call c)
    (fun _ _ hl hearlier => hl.inTurn hearlier) tracks_start h
  once := returnsOnce calls

def entry (digit : Fin 16) (priority submittedAt : Nat) : SchedEntry where
  taskId := ⟨List.replicate 32 digit, List.length_replicate⟩
  agent := ⟨"file_agent"⟩
  priority := priority
  submittedAt := submittedAt

theorem fifo_of_earlier_three :
    Fifo [.enqueue (entry 0 1 10), .enqueue (entry 1 1 11), .next, .enqueue (entry 2 5 12),
      .next, .next] :=
  fifo_of_earlier _ (earlier_of_increasing (by decide))

/-- Of four entries of one time the third comes second; and where the clock was set back, the
second comes first. -/
theorem not_fifo_same_time :
    ¬ Fifo [.enqueue (entry 0 1 10), .enqueue (entry 1 1 10), .enqueue (entry 2 1 10),
        .enqueue (entry 3 1 10), .next, .next] ∧
      ¬ Fifo [.enqueue (entry 0 1 10), .enqueue (entry 1 1 9), .next] := by
  refine ⟨fun h => ?_, fun h => ?_⟩
  · obtain ⟨-, -, -, -, -, hturn, -⟩ := h.inTurn
    have hfind : Turn [entry 1 1 10, entry 2 1 10, entry 3 1 10] (entry 2 1 10) := hturn
    exact absurd hfind.find (by decide)
  · obtain ⟨-, -, hturn, -⟩ := h.inTurn
    have hfind : Turn [entry 0 1 10, entry 1 1 9] (entry 1 1 9) := hturn
    exact absurd hfind.find (by decide)

end Line

end Orchestrator

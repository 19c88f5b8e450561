/-
# `Cognos.Memory.IndexQueue` — what becomes of a path pushed to the index queue

The overlay appends a path and a newline to a file (`push_to_index_queue`); the indexer reads
the file line by line, hands each line to `index_file` and empties the file (`drain_queue`).
Neither waits for the other, so a run is any sequence of their system calls.

    Kept               every path pushed is waiting still, or was handed to `index_file` since;
                       one of which the call failed is waiting still; the next one has a line
                       of its own
    Careful            the condition on a step that keeps it so
    paths_kept_iff     a run keeps every path throughout exactly when its steps are careful

A file is the list of its characters; a read takes any number of them, and a write that fails
leaves any number of them behind.  What `index_file` makes of a path is not looked into: a call
of it ends in some way.
-/
import Mathlib
import Cognos.Lib.Lines
import Cognos.Lib.Run
import Cognos.Memory.Anfs

namespace IndexQueue

open Anfs Text

/-! ## The queue and its two users -/

/-- `IndexError`, without the system's own error. -/
inductive IndexError
  | io
  | serialize (e : String)
  deriving DecidableEq

/-- Where the indexer is: not in `drain_queue`; in its loop, which has read the file up to an
offset and has `buffer` left of what it read; past the loop.  `indexed` is the loop's count,
`failed` the paths whose last call in this drain returned an error. -/
inductive Drain
  | idle
  | reading (offset : Nat) (buffer : List Char) (indexed : Nat) (failed : List String)
  | ended (offset : Nat) (indexed : Nat) (failed : List String)

/-- The queue file, the indexer, what its drains have returned, and the paths it still owes a
call: pushed and not handed to `index_file` since, or handed to a call that failed. -/
structure Queue where
  file : Option (List Char)
  drain : Drain
  returned : List (Except IndexError Nat)
  unserved : List String

/-- No file yet. -/
def fresh : Queue := ⟨none, .idle, [], []⟩

/-- A system call of the overlay or of the indexer, or a call of `index_file`, and how it ends.  A
push writes so many characters of its line, when it can open the file. -/
inductive Act
  | push (path : Path) (written : Option Nat)
  | openQueue (works : Bool)
  | fill (n : Nat)
  | line (outcome : Except IndexError Bool)
  | fail
  | truncate (works : Bool)

def Act.OfIndexer : Act → Prop
  | .push _ _ => False
  | _ => True

/-- The calls owed, after one with the path `t`. -/
def serve (outcome : Except IndexError Bool) (t : String) (owed : List String) : List String :=
  match outcome with
  | .ok _ => owed.filter (· ≠ t)
  | .error _ => t :: owed

/-- `index_file(..).unwrap_or(false)`, counted. -/
def countOf : Except IndexError Bool → Nat
  | .ok true => 1
  | _ => 0

namespace Queue

def text (s : Queue) : List Char := s.file.getD []

/-- `drain_queue` returns. -/
def finish (s : Queue) (result : Except IndexError Nat) : Queue :=
  { s with drain := .idle, returned := s.returned ++ [result] }

/-- The body of the loop, for a line. -/
def indexLine (s : Queue) (offset : Nat) (rest : List Char) (indexed : Nat) (failed : List String)
    (l : List Char) (outcome : Except IndexError Bool) : Queue :=
  let trimmed := trim (endLine l.reverse)
  if trimmed = "" then { s with drain := .reading offset rest indexed failed }
  else { s with
    drain := .reading offset rest (indexed + countOf outcome) (serve outcome trimmed failed)
    unserved := serve outcome trimmed s.unserved }

/-- The next line: up to a newline, or the rest of the file. -/
def nextLine (buffer unread : List Char) : Option (List Char × List Char) :=
  match cutLine buffer with
  | some p => some p
  | none => if unread = [] ∧ buffer ≠ [] then some (buffer, []) else none

variable (a : AnfsFilesystem)

/-- What is pushed for a path of the mount. -/
def pathText (path : Path) : String := Path.text (a.realPath path)

def queueLine (path : Path) : List Char := (pathText a path).toList ++ ['\n']

/-- What of the line gets into the file. -/
def appended (path : Path) (written : Option Nat) : List Char :=
  (queueLine a path).take (written.getD 0)

def step (s : Queue) : Act → Queue
  | .push path written =>
      { s with
        file := if written.isSome then some (s.text ++ appended a path written) else s.file
        unserved := pathText a path :: s.unserved }
  | .openQueue works =>
      match s.drain, s.file with
      | .idle, none => s.finish (.ok 0)
      | .idle, some _ =>
          if works then { s with drain := .reading 0 [] 0 [] } else s.finish (.error .io)
      | _, _ => s
  | .fill n =>
      match s.drain with
      | .reading offset buffer indexed failed =>
          let data := (s.text.drop offset).take (n + 1)
          -- the reader asks the system only when it holds no line
          if '\n' ∈ buffer then s
          else if data ≠ [] then
            { s with drain := .reading (offset + data.length) (buffer ++ data) indexed failed }
          else if buffer = [] then { s with drain := .ended offset indexed failed }
          else s
      | _ => s
  | .line outcome =>
      match s.drain with
      | .reading offset buffer indexed failed =>
          match nextLine buffer (s.text.drop offset) with
          | some (l, rest) => s.indexLine offset rest indexed failed l outcome
          | none => s
      | _ => s
  | .fail =>
      match s.drain with
      | .reading _ _ _ _ => s.finish (.error .io)
      | _ => s
  | .truncate works =>
      match s.drain with
      | .ended _ indexed _ =>
          if works then { s with file := some [] }.finish (.ok indexed)
          else s.finish (.error .io)
      | _ => s

/-! ## What is waiting -/

/-- The paths whose call is still to come: on the lines not read yet, and those that failed in
this drain, whose lines are in the file until it is emptied. -/
def waiting (s : Queue) : List String :=
  match s.drain with
  | .idle => entries s.text
  | .reading offset buffer _ failed => failed ++ entries (buffer ++ s.text.drop offset)
  | .ended offset _ failed => failed ++ entries (s.text.drop offset)

/-- No request is lost: every path that is owed a call waits for it, what waits is a line of the
queue file, the last of its lines is ended, and the indexer by itself can serve everything. -/
structure Kept (s : Queue) : Prop where
  waits : ∀ t ∈ s.unserved, t ∈ s.waiting
  queued : ∀ t ∈ s.waiting, t ∈ entries s.text
  whole : Whole s.text
  served : ∃ acts : List Act, (∀ act ∈ acts, act.OfIndexer) ∧
    (Run.after (step a) s acts).unserved = []

/-- A push writes its line and its path reads back from it, or it writes nothing and that path
waits anyway; and the file is emptied only when nothing was appended since its end was read and no
call of the drain failed. -/
def Careful (s : Queue) : Act → Prop
  | .push path written =>
      appended a path written = queueLine a path ∧ ReadsBack (pathText a path) ∨
        appended a path written = [] ∧ pathText a path ∈ s.waiting
  | .truncate true =>
      match s.drain with
      | .ended offset _ failed => s.text.drop offset = [] ∧ failed = []
      | _ => True
  | _ => True

/-- Where the indexer is in the file. -/
def Placed (s : Queue) : Prop :=
  match s.drain with
  | .idle => True
  | .reading offset buffer _ failed =>
      offset ≤ s.text.length ∧ Whole (buffer ++ s.text.drop offset) ∧ failed ⊆ s.unserved
  | .ended offset _ failed =>
      offset ≤ s.text.length ∧ failed ⊆ s.unserved ∧
        entries (s.text.drop offset) ⊆ s.unserved ∧
        (s.text.drop offset ≠ [] → entries (s.text.drop offset) ≠ [])

structure Sound (s : Queue) : Prop where
  whole : Whole s.text
  waits : ∀ t ∈ s.unserved, t ∈ s.waiting
  queued : ∀ t ∈ s.waiting, t ∈ entries s.text
  placed : s.Placed

theorem sound_fresh : Sound fresh := by
  refine ⟨whole_nil, ?_, ?_, trivial⟩
  · exact fun t ht => absurd ht List.not_mem_nil
  · exact fun t ht => ht

/-! ## A push -/

theorem pathText_ne_empty (path : Path) : pathText a path ≠ "" := by
  intro h
  have hlist := congrArg String.toList h
  rw [pathText, Path.text, String.toList_append] at hlist
  cases hlist

variable {a} {s : Queue}

theorem drop_append_text {offset : Nat} (h : offset ≤ s.text.length) (new : List Char) :
    (s.text ++ new).drop offset = s.text.drop offset ++ new :=
  List.drop_append_of_le_length h

theorem text_push (s : Queue) (path : Path) (written : Option Nat) :
    (step a s (.push path written)).text = s.text ++ appended a path written := by
  cases written with
  | none => exact (List.append_nil _).symm
  | some n => rfl

/-- Of a line without a newline in it, nothing or all of it is whole. -/
theorem eq_of_prefix_whole {l new : List Char} (hl : '\n' ∉ l) (hpre : new <+: l ++ ['\n'])
    (hwhole : Whole new) : new = [] ∨ new = l ++ ['\n'] := by
  rcases List.prefix_concat_iff.mp hpre with hall | hpre
  · exact Or.inr hall
  · refine Or.inl (by_contra fun hne => hl ?_)
    exact hpre.subset (hwhole.newline_mem hne)

/-- What is appended waits behind what was there. -/
theorem Sound.waiting_append (h : Sound s) {s' : Queue} {new : List Char}
    (htext : s'.text = s.text ++ new) (hdrain : s'.drain = s.drain) :
    s'.waiting = s.waiting ++ entries new := by
  have hplaced := h.placed
  unfold Placed at hplaced
  rw [waiting, waiting, hdrain, htext]
  cases hs : s.drain with
  | idle => exact entries_append h.whole new
  | reading offset buffer indexed failed =>
      rw [hs] at hplaced
      show failed ++ entries (buffer ++ (s.text ++ new).drop offset) = _
      rw [drop_append_text hplaced.1, ← List.append_assoc, entries_append hplaced.2.1,
        ← List.append_assoc]
  | ended offset indexed failed =>
      rw [hs] at hplaced
      show failed ++ entries ((s.text ++ new).drop offset) = _
      rw [drop_append_text hplaced.1, entries_append (h.whole.drop offset), ← List.append_assoc]

theorem Sound.waiting_push (h : Sound s) (path : Path) (written : Option Nat) :
    (step a s (.push path written)).waiting = s.waiting ++ entries (appended a path written) :=
  h.waiting_append (text_push s path written) rfl

/-- After a push every path that is owed a call waits, and the last line is ended, exactly when
the push was a careful one. -/
theorem Sound.waits_push (h : Sound s) {path : Path} {written : Option Nat} :
    ((∀ t ∈ (step a s (.push path written)).unserved,
        t ∈ (step a s (.push path written)).waiting) ∧
      Whole (step a s (.push path written)).text) ↔ Careful a s (.push path written) := by
  rw [h.waiting_push, text_push]
  show ((∀ t ∈ pathText a path :: s.unserved, _) ∧ _) ↔ _
  constructor
  · rintro ⟨hwaits, hwhole⟩
    have hmem := hwaits _ List.mem_cons_self
    by_cases hnone : appended a path written = []
    · rw [hnone, entries_nil, List.append_nil] at hmem
      exact Or.inr ⟨hnone, hmem⟩
    · -- the last character there is in the file came with this push
      have hnew : Whole (appended a path written) := hwhole.of_append
      have hreads : ReadsBack (pathText a path) := by
        rcases List.mem_append.mp hmem with hmem | hmem
        · exact readsBack_of_mem_entries h.whole (h.queued _ hmem)
        · exact readsBack_of_mem_entries hnew hmem
      have hall := (eq_of_prefix_whole hreads.1 (List.take_prefix _ _) hnew).resolve_left hnone
      exact Or.inl ⟨hall, hreads⟩
  · rintro (⟨hall, hreads⟩ | ⟨hnone, hmem⟩)
    · rw [hall]
      refine ⟨fun t ht => ?_, h.whole.append (whole_line _)⟩
      rcases List.mem_cons.mp ht with rfl | ht
      · exact List.mem_append_right _ ((mem_entries_line (pathText_ne_empty a path)).mpr hreads)
      · exact List.mem_append_left _ (h.waits t ht)
    · rw [hnone, entries_nil, List.append_nil, List.append_nil]
      refine ⟨fun t ht => ?_, h.whole⟩
      rcases List.mem_cons.mp ht with rfl | ht
      · exact hmem
      · exact h.waits t ht

/-- What a careful push appends: the path as a line of its own, or nothing. -/
theorem entries_appended {path : Path} {written : Option Nat}
    (hcareful : Careful a s (.push path written)) :
    appended a path written = [] ∨ entries (appended a path written) = [pathText a path] := by
  rcases hcareful with ⟨hall, hreads⟩ | ⟨hnone, -⟩
  · exact Or.inr (hall ▸ entries_of_readsBack hreads (pathText_ne_empty a path))
  · exact Or.inl hnone

theorem Sound.placed_push (h : Sound s) {path : Path} {written : Option Nat}
    (hcareful : Careful a s (.push path written)) :
    Placed (step a s (.push path written)) := by
  have hplaced := h.placed
  have hnew := entries_appended hcareful
  have hwhole := (h.waits_push.mpr hcareful).2
  have htext := text_push (a := a) s path written
  have hdrain : (step a s (.push path written)).drain = s.drain := rfl
  have hunserved : (step a s (.push path written)).unserved = pathText a path :: s.unserved := rfl
  rw [htext] at hwhole
  unfold Placed at hplaced ⊢
  rw [hdrain, htext, hunserved, List.length_append]
  cases hs : s.drain with
  | idle => trivial
  | reading offset buffer indexed failed =>
      rw [hs] at hplaced
      obtain ⟨hoffset, hbuffer, hfailed⟩ := hplaced
      refine ⟨Nat.le_add_right_of_le hoffset, ?_, List.subset_cons_of_subset _ hfailed⟩
      rw [drop_append_text hoffset, ← List.append_assoc]
      exact hbuffer.append hwhole.of_append
  | ended offset indexed failed =>
      rw [hs] at hplaced
      obtain ⟨hoffset, hfailed, hentries, hne⟩ := hplaced
      refine ⟨Nat.le_add_right_of_le hoffset, List.subset_cons_of_subset _ hfailed, ?_, ?_⟩
      · rw [drop_append_text hoffset, entries_append (h.whole.drop offset)]
        refine List.append_subset.mpr ⟨List.subset_cons_of_subset _ hentries, ?_⟩
        rcases hnew with hnone | hone
        · rw [hnone]
          exact List.nil_subset _
        · rw [hone]
          exact List.cons_subset_cons _ (List.nil_subset _)
      · rw [drop_append_text hoffset, entries_append (h.whole.drop offset)]
        intro hmore
        rcases hnew with hnone | hone
        · rw [hnone, List.append_nil] at hmore
          exact List.append_ne_nil_of_left_ne_nil (hne hmore) _
        · rw [hone]
          exact List.append_ne_nil_of_right_ne_nil _ (List.cons_ne_nil _ _)

theorem Sound.push (h : Sound s) {path : Path} {written : Option Nat}
    (hcareful : Careful a s (.push path written)) : Sound (step a s (.push path written)) := by
  obtain ⟨hwaits, hwhole⟩ := h.waits_push.mpr hcareful
  refine ⟨hwhole, hwaits, fun t ht => ?_, h.placed_push hcareful⟩
  rw [text_push, entries_append h.whole]
  rw [h.waiting_push] at ht
  rcases List.mem_append.mp ht with ht | ht
  · exact List.mem_append_left _ (h.queued t ht)
  · exact List.mem_append_right _ ht

/-! ## The steps of the indexer -/

theorem Sound.finish (h : Sound s) (result : Except IndexError Nat) : Sound (s.finish result) :=
  ⟨h.whole, fun t ht => h.queued t (h.waits t ht), fun _ ht => ht, trivial⟩

/-- The indexer gets on, and what waits stays the same. -/
theorem Sound.move (h : Sound s) {drain : Drain}
    (hwaiting : waiting { s with drain := drain } = s.waiting)
    (hplaced : Placed { s with drain := drain }) : Sound { s with drain := drain } := by
  refine ⟨h.whole, ?_, ?_, hplaced⟩
  · intro t ht
    rw [hwaiting]
    exact h.waits t ht
  · intro t ht
    rw [hwaiting] at ht
    exact h.queued t ht

theorem Sound.openQueue (h : Sound s) (works : Bool) : Sound (step a s (.openQueue works)) := by
  cases hdrain : s.drain with
  | reading offset buffer indexed failed =>
      rw [step, hdrain]
      exact h
  | ended offset indexed failed =>
      rw [step, hdrain]
      exact h
  | idle =>
      cases hfile : s.file with
      | none =>
          rw [step, hdrain, hfile]
          exact h.finish _
      | some content =>
          cases works with
          | false =>
              rw [step, hdrain, hfile]
              exact h.finish _
          | true =>
              have hstep : step a s (.openQueue true) = { s with drain := .reading 0 [] 0 [] } := by
                simp only [step, hdrain, hfile, if_true]
              rw [hstep]
              refine h.move ?_ ⟨Nat.zero_le _, h.whole, List.nil_subset _⟩
              rw [waiting, waiting, hdrain]
              rfl

theorem Sound.reading (h : Sound s) {offset : Nat} {buffer : List Char} {indexed : Nat}
    {failed : List String} (hdrain : s.drain = .reading offset buffer indexed failed) :
    (offset ≤ s.text.length ∧ Whole (buffer ++ s.text.drop offset) ∧ failed ⊆ s.unserved) ∧
      s.waiting = failed ++ entries (buffer ++ s.text.drop offset) := by
  have hplaced := h.placed
  rw [Placed, hdrain] at hplaced
  rw [waiting, hdrain]
  exact ⟨hplaced, rfl⟩

theorem drop_length_take (l : List Char) (k : Nat) : l.drop (l.take k).length = l.drop k := by
  rw [List.length_take]
  rcases le_total k l.length with h | h
  · rw [min_eq_left h]
  · rw [min_eq_right h, List.drop_length, List.drop_eq_nil_of_le h]

theorem Sound.fill (h : Sound s) (n : Nat) : Sound (step a s (.fill n)) := by
  cases hdrain : s.drain with
  | idle =>
      rw [step, hdrain]
      exact h
  | ended offset indexed failed =>
      rw [step, hdrain]
      exact h
  | reading offset buffer indexed failed =>
      obtain ⟨⟨hoffset, hwhole, hfailed⟩, hwaiting⟩ := h.reading hdrain
      simp only [step, hdrain]
      split_ifs with hline hdata hbuffer
      · exact h
      · -- what is read moves from the file to the buffer
        have hlength : ((s.text.drop offset).take (n + 1)).length ≤ (s.text.drop offset).length :=
          List.length_take_le' _ _
        have hunread : s.text.drop (offset + ((s.text.drop offset).take (n + 1)).length) =
            (s.text.drop offset).drop (n + 1) := by
          rw [← List.drop_drop, drop_length_take]
        have hsame : (buffer ++ (s.text.drop offset).take (n + 1)) ++
            s.text.drop (offset + ((s.text.drop offset).take (n + 1)).length) =
              buffer ++ s.text.drop offset := by
          rw [hunread, List.append_assoc, List.take_append_drop]
        refine h.move ?_ ⟨?_, ?_, hfailed⟩
        · rw [hwaiting]
          exact congrArg (failed ++ entries ·) hsame
        · show offset + _ ≤ s.text.length
          rw [List.length_drop] at hlength
          omega
        · exact hsame ▸ hwhole
      · -- the end of the file
        rw [not_not, List.take_eq_nil_iff] at hdata
        have hend : s.text.drop offset = [] := hdata.resolve_left (Nat.succ_ne_zero n)
        refine h.move ?_ ⟨hoffset, hfailed, ?_, fun hne => absurd hend hne⟩
        · rw [hwaiting, hbuffer]
          rfl
        · show entries (s.text.drop offset) ⊆ s.unserved
          rw [hend]
          exact List.nil_subset _
      · exact h

/-- In a whole text every line is ended. -/
theorem nextLine_whole {buffer unread l rest : List Char} (hwhole : Whole (buffer ++ unread))
    (h : nextLine buffer unread = some (l, rest)) : '\n' ∉ l ∧ buffer = l ++ '\n' :: rest := by
  unfold nextLine at h
  cases hcut : cutLine buffer with
  | some p =>
      rw [hcut] at h
      cases h
      exact cutLine_some hcut
  | none =>
      rw [hcut] at h
      simp only at h
      split_ifs at h with hlast
      rw [hlast.1, List.append_nil] at hwhole
      obtain ⟨l', rest', hl', hbuffer⟩ := exists_line (hwhole.newline_mem hlast.2)
      rw [hbuffer, cutLine_line hl'] at hcut
      cases hcut

theorem serve_subset (outcome : Except IndexError Bool) (t : String) (owed : List String) :
    serve outcome t owed ⊆ t :: owed := by
  cases outcome with
  | ok b => exact List.subset_cons_of_subset _ (List.filter_sublist).subset
  | error e => exact List.Subset.refl _

theorem serve_mono (outcome : Except IndexError Bool) (t : String) {owed owed' : List String}
    (h : owed ⊆ owed') : serve outcome t owed ⊆ serve outcome t owed' := by
  cases outcome with
  | ok b =>
      intro x hx
      obtain ⟨hmem, hne⟩ := List.mem_filter.mp hx
      exact List.mem_filter.mpr ⟨h hmem, hne⟩
  | error e => exact List.cons_subset_cons t h

/-- A path that is owed a call, but for those of which this one disposes, is owed it still. -/
theorem mem_serve {outcome : Except IndexError Bool} {t x : String} {owed owed' : List String}
    (hx : x ∈ serve outcome t owed) (h : x = t ∨ x ∈ owed') : x ∈ serve outcome t owed' := by
  cases outcome with
  | ok b =>
      have hne := (List.mem_filter.mp hx).2
      refine List.mem_filter.mpr ⟨h.resolve_left (of_decide_eq_true hne), hne⟩
  | error e => exact List.mem_cons.mpr h

theorem Sound.line (h : Sound s) (outcome : Except IndexError Bool) :
    Sound (step a s (.line outcome)) := by
  cases hdrain : s.drain with
  | idle =>
      rw [step, hdrain]
      exact h
  | ended offset indexed failed =>
      rw [step, hdrain]
      exact h
  | reading offset buffer indexed failed =>
      obtain ⟨⟨hoffset, hwhole, hfailed⟩, hwaiting⟩ := h.reading hdrain
      simp only [step, hdrain]
      cases hnext : nextLine buffer (s.text.drop offset) with
      | none => exact h
      | some p =>
          obtain ⟨hl, hbuffer⟩ := nextLine_whole hwhole hnext
          rw [hbuffer, List.append_assoc, List.cons_append] at hwhole hwaiting
          rw [entries_line hl] at hwaiting
          have hrest : Whole (p.2 ++ s.text.drop offset) := by
            rw [List.append_cons] at hwhole
            exact hwhole.of_append
          show Sound (s.indexLine offset p.2 indexed failed p.1 outcome)
          unfold indexLine
          unfold entry at hwaiting
          by_cases hblank : trim (endLine p.1.reverse) = ""
          · rw [if_pos hblank] at hwaiting
            rw [if_pos hblank]
            exact h.move hwaiting.symm ⟨hoffset, hrest, hfailed⟩
          · rw [if_neg hblank] at hwaiting
            rw [if_neg hblank]
            have hqueued := h.queued
            have hwaits := h.waits
            rw [hwaiting] at hqueued hwaits
            refine ⟨h.whole, ?_, ?_, hoffset, hrest, serve_mono outcome _ hfailed⟩
            · intro x hx
              show x ∈ serve outcome _ failed ++ entries (p.2 ++ s.text.drop offset)
              rcases List.mem_cons.mp (serve_subset outcome _ _ hx) with heq | howed
              · exact List.mem_append_left _ (mem_serve hx (Or.inl heq))
              · rcases List.mem_append.mp (hwaits x howed) with hmem | hmem
                · exact List.mem_append_left _ (mem_serve hx (Or.inr hmem))
                · rcases List.mem_cons.mp hmem with heq | hmem
                  · exact List.mem_append_left _ (mem_serve hx (Or.inl heq))
                  · exact List.mem_append_right _ hmem
            · intro x hx
              refine hqueued x ?_
              rcases List.mem_append.mp hx with hx | hx
              · rcases List.mem_cons.mp (serve_subset outcome _ _ hx) with rfl | hmem
                · exact List.mem_append_right _ List.mem_cons_self
                · exact List.mem_append_left _ hmem
              · exact List.mem_append_right _ (List.mem_cons_of_mem _ hx)

theorem Sound.fail (h : Sound s) : Sound (step a s .fail) := by
  cases hdrain : s.drain with
  | idle =>
      rw [step, hdrain]
      exact h
  | reading offset buffer indexed failed =>
      rw [step, hdrain]
      exact h.finish _
  | ended offset indexed failed =>
      rw [step, hdrain]
      exact h

/-- To empty the file loses nothing exactly when there is nothing left to lose. -/
theorem Sound.waits_truncate (h : Sound s) :
    (∀ t ∈ (step a s (.truncate true)).unserved, t ∈ (step a s (.truncate true)).waiting) ↔
      Careful a s (.truncate true) := by
  cases hdrain : s.drain with
  | idle =>
      rw [step, Careful, hdrain]
      exact iff_of_true h.waits trivial
  | reading offset buffer indexed failed =>
      rw [step, Careful, hdrain]
      exact iff_of_true h.waits trivial
  | ended offset indexed failed =>
      have hplaced := h.placed
      rw [Placed, hdrain] at hplaced
      obtain ⟨-, hfailed, hentries, hne⟩ := hplaced
      rw [step, Careful, hdrain]
      show (∀ t ∈ s.unserved, t ∈ entries []) ↔ _
      constructor
      · intro hwaits
        have hnone : s.unserved = [] := List.eq_nil_iff_forall_not_mem.mpr fun t ht =>
          absurd (hwaits t ht) List.not_mem_nil
        rw [hnone] at hfailed hentries
        refine ⟨?_, List.subset_nil.mp hfailed⟩
        by_contra hmore
        exact hne hmore (List.subset_nil.mp hentries)
      · rintro ⟨hread, hnone⟩ t ht
        have hmem := h.waits t ht
        rw [waiting, hdrain] at hmem
        simp only [hread, hnone] at hmem
        exact hmem

theorem Sound.truncate (h : Sound s) {works : Bool} (hcareful : Careful a s (.truncate works)) :
    Sound (step a s (.truncate works)) := by
  cases works with
  | true =>
      have hwaits := h.waits_truncate.mpr hcareful
      cases hdrain : s.drain with
      | idle =>
          rw [step, hdrain]
          exact h
      | reading offset buffer indexed failed =>
          rw [step, hdrain]
          exact h
      | ended offset indexed failed =>
          rw [step, hdrain] at hwaits ⊢
          exact ⟨whole_nil, hwaits, fun _ ht => ht, trivial⟩
  | false =>
      cases hdrain : s.drain with
      | idle =>
          rw [step, hdrain]
          exact h
      | reading offset buffer indexed failed =>
          rw [step, hdrain]
          exact h
      | ended offset indexed failed =>
          rw [step, hdrain]
          exact h.finish _

theorem sound_step (h : Sound s) {act : Act} (hcareful : Careful a s act) :
    Sound (step a s act) := by
  cases act with
  | push path written => exact h.push hcareful
  | openQueue works => exact h.openQueue works
  | fill n => exact h.fill n
  | line outcome => exact h.line outcome
  | fail => exact h.fail
  | truncate works => exact h.truncate hcareful

/-! ## A drain that nothing disturbs -/

/-- The calls of `drain_queue` up to the end of its loop. -/
def Calm : Act → Prop
  | .push _ _ | .truncate _ => False
  | _ => True

theorem Sound.calm (h : Sound s) {acts : List Act} (hacts : ∀ act ∈ acts, Calm act) :
    Sound (Run.after (step a) s acts) := by
  refine Run.invariant (step a) (P := fun _ act => Calm act) (fun s act hs hcalm => ?_) h
    (Run.along_of_forall _ fun act hact _ => hacts act hact)
  refine sound_step hs ?_
  cases act with
  | push path written => cases hcalm
  | truncate works => cases hcalm
  | openQueue works => trivial
  | fill n => trivial
  | line outcome => trivial
  | fail => trivial

/-- With the file read to its end, the loop goes through the lines it holds. -/
theorem exists_ended {buffer : List Char} (hwhole : Whole buffer) :
    ∀ {s : Queue} {offset indexed : Nat}, s.drain = .reading offset buffer indexed [] →
      s.text.drop offset = [] → ∃ acts : List Act, (∀ act ∈ acts, Calm act) ∧
        ∃ indexed', (Run.after (step a) s acts).drain = .ended offset indexed' [] ∧
          (Run.after (step a) s acts).text.drop offset = [] := by
  refine hwhole.rec_lines (motive := fun buffer => ∀ {s : Queue} {offset indexed : Nat},
    s.drain = .reading offset buffer indexed [] → s.text.drop offset = [] → ∃ acts : List Act,
      (∀ act ∈ acts, Calm act) ∧ ∃ indexed',
        (Run.after (step a) s acts).drain = .ended offset indexed' [] ∧
          (Run.after (step a) s acts).text.drop offset = []) ?_ ?_
  · intro s offset indexed hdrain hend
    have hstep : step a s (.fill 0) = { s with drain := .ended offset indexed [] } := by
      simp [step, hdrain, hend]
    refine ⟨[.fill 0], fun act hact => List.mem_singleton.mp hact ▸ trivial, indexed, ?_⟩
    rw [Run.after_cons, Run.after_nil, hstep]
    exact ⟨rfl, hend⟩
  · intro l rest hl _ ih s offset indexed hdrain hend
    have hnext : nextLine (l ++ '\n' :: rest) (s.text.drop offset) = some (l, rest) := by
      rw [nextLine, cutLine_line hl]
    have hstep : step a s (.line (.ok true)) =
        s.indexLine offset rest indexed [] l (.ok true) := by
      simp only [step, hdrain, hnext]
    obtain ⟨indexed', hafter, htext⟩ : ∃ indexed',
        (step a s (.line (.ok true))).drain = .reading offset rest indexed' [] ∧
          (step a s (.line (.ok true))).text = s.text := by
      rw [hstep, indexLine]
      split_ifs
      · exact ⟨indexed, rfl, rfl⟩
      · exact ⟨indexed + 1, rfl, rfl⟩
    obtain ⟨acts, hcalm, hends⟩ := ih hafter (htext ▸ hend)
    exact ⟨.line (.ok true) :: acts, List.forall_mem_cons.mpr ⟨trivial, hcalm⟩, hends⟩

theorem ofIndexer_of_calm {act : Act} (h : Calm act) : act.OfIndexer := by
  cases act with
  | push path written => cases h
  | truncate works => trivial
  | openQueue works => trivial
  | fill n => trivial
  | line outcome => trivial
  | fail => trivial

theorem Sound.served_idle (h : Sound s) (hdrain : s.drain = .idle) :
    ∃ acts : List Act, (∀ act ∈ acts, act.OfIndexer) ∧
      (Run.after (step a) s acts).unserved = [] := by
  have hwaits := h.waits
  rw [waiting, hdrain] at hwaits
  by_cases htext : s.text = []
  · refine ⟨[], fun _ hact => absurd hact List.not_mem_nil, ?_⟩
    simp only [htext] at hwaits
    exact List.eq_nil_iff_forall_not_mem.mpr fun t ht => absurd (hwaits t ht) List.not_mem_nil
  · obtain ⟨content, hfile⟩ : ∃ content, s.file = some content := by
      cases hfile : s.file with
      | none => exact absurd (by rw [text, hfile]; rfl) htext
      | some content => exact ⟨content, rfl⟩
    let opened : Queue := { s with drain := .reading 0 [] 0 [] }
    let read : Queue := { s with drain := .reading s.text.length s.text 0 [] }
    have hopen : step a s (.openQueue true) = opened := by
      simp only [step, hdrain, hfile, if_true, opened]
    have hfill : step a opened (.fill s.text.length) = read := by
      have hdata : (opened.text.drop 0).take (s.text.length + 1) = s.text := by
        rw [List.drop_zero]
        exact List.take_of_length_le (Nat.le_succ _)
      simp only [step, opened, hdata, List.not_mem_nil, if_false]
      rw [if_pos htext, Nat.zero_add, List.nil_append]
    obtain ⟨acts, hcalm, indexed, hended, hend⟩ :=
      exists_ended (a := a) h.whole (s := read) rfl List.drop_length
    have hbefore : ∀ act ∈ .openQueue true :: .fill s.text.length :: acts, Calm act :=
      List.forall_mem_cons.mpr ⟨trivial, List.forall_mem_cons.mpr ⟨trivial, hcalm⟩⟩
    have hafter : Run.after (step a) s (.openQueue true :: .fill s.text.length :: acts) =
        Run.after (step a) read acts := by
      rw [Run.after_cons, hopen, Run.after_cons, hfill]
    refine ⟨.openQueue true :: .fill s.text.length :: acts ++ [.truncate true], ?_, ?_⟩
    · intro act hact
      rcases List.mem_append.mp hact with hact | hact
      · exact ofIndexer_of_calm (hbefore act hact)
      · exact List.mem_singleton.mp hact ▸ trivial
    · -- the file is emptied with nothing left in it
      have hsound := h.calm (a := a) hbefore
      rw [hafter] at hsound
      have hcareful : Careful a (Run.after (step a) read acts) (.truncate true) := by
        rw [Careful, hended]
        exact ⟨hend, rfl⟩
      have hlast := hsound.waits_truncate.mpr hcareful
      rw [Run.after_append, hafter, Run.after_cons, Run.after_nil]
      rw [step, hended] at hlast ⊢
      exact List.eq_nil_iff_forall_not_mem.mpr fun t ht => absurd (hlast t ht) List.not_mem_nil

theorem Sound.served (h : Sound s) : ∃ acts : List Act, (∀ act ∈ acts, act.OfIndexer) ∧
    (Run.after (step a) s acts).unserved = [] := by
  cases hdrain : s.drain with
  | idle => exact h.served_idle hdrain
  | reading offset buffer indexed failed =>
      have hidle : (step a s .fail).drain = .idle := by
        rw [step, hdrain]
        rfl
      obtain ⟨acts, hacts, hserved⟩ := h.fail.served_idle (a := a) hidle
      exact ⟨.fail :: acts, List.forall_mem_cons.mpr ⟨trivial, hacts⟩, hserved⟩
  | ended offset indexed failed =>
      have hidle : (step a s (.truncate false)).drain = .idle := by
        rw [step, hdrain]
        rfl
      have hsound : Sound (step a s (.truncate false)) := h.truncate trivial
      obtain ⟨acts, hacts, hserved⟩ := hsound.served_idle (a := a) hidle
      exact ⟨.truncate false :: acts, List.forall_mem_cons.mpr ⟨trivial, hacts⟩, hserved⟩

/-! ## Runs -/

theorem Sound.kept (h : Sound s) : Kept a s := ⟨h.waits, h.queued, h.whole, h.served⟩

/-- In a run of the overlay and the indexer, step by step and in any order, no request is lost
at any time exactly when all steps are careful. -/
theorem paths_kept_iff (acts : List Act) : Run.Throughout (step a) (Kept a) fresh acts ↔
    Run.Along (step a) (Careful a) fresh acts := by
  refine Run.throughout_iff_along (I := Sound) (step a) (fun s hs => hs.kept) ?_
    (fun s act hs hcareful => sound_step hs hcareful) sound_fresh
  intro s act hs
  constructor
  · intro hkept
    cases act with
    | push path written => exact hs.waits_push.mp ⟨hkept.waits, hkept.whole⟩
    | truncate works =>
        cases works with
        | true => exact hs.waits_truncate.mp hkept.waits
        | false => trivial
    | openQueue works => trivial
    | fill n => trivial
    | line outcome => trivial
    | fail => trivial
  · intro hcareful
    exact (sound_step hs hcareful).kept

/-- A file is pushed after the indexer has read the queue to its end and before it empties it. -/
def pushedBetween : List Act :=
  [.push ["a.md"] (some 80), .openQueue true, .fill 80, .line (.ok true), .fill 80,
    .push ["b.md"] (some 80), .truncate true]

/-- That request is lost: its path is in no line of the queue, and was never handed on. -/
theorem not_kept_pushedBetween :
    (Run.after (step AnfsFilesystem.someHome) fresh pushedBetween).unserved =
      ["/home/user/b.md"] ∧
    (Run.after (step AnfsFilesystem.someHome) fresh pushedBetween).file = some [] ∧
    ¬ Run.Throughout (step AnfsFilesystem.someHome) (Kept AnfsFilesystem.someHome) fresh
      pushedBetween := by
  have hunserved : (Run.after (step AnfsFilesystem.someHome) fresh pushedBetween).unserved =
      ["/home/user/b.md"] := by
    decide
  refine ⟨hunserved, by decide, fun h => ?_⟩
  have hwaits := (h _ (List.prefix_refl _)).waits "/home/user/b.md"
    (hunserved ▸ List.mem_singleton_self _)
  revert hwaits
  decide

end Queue

end IndexQueue

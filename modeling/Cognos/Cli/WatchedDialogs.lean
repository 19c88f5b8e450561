/-
# `Cognos.Cli.WatchedDialogs` — what the keys of `cognos approval watch` answer

A dialog is to be answered once, approved only by a key that was pressed with its banner on
the screen, and called allowed exactly when the approval went out in full.  The first always
holds.  The other two hold along a run exactly when its approving turns are heeded
(`Heeded`): the key read was pressed with the front of the queue on the screen, and the
front's stream takes the frame.  A key that was typed ahead, a connection that HAL has left
and a notice that is too long are the ways not to be.

    turn_silent, turn_approves   what a turn does to streams, answers and the terminal
    numbered_step                each connection is waiting or answered, once
    sound_step_iff               what keeps a sound watch sound
    sound_throughout_iff         and so along a run
    typed_of_mem_presses         where the keys of a run come from
-/
import Cognos.Cli.ApprovalWatch
import Cognos.System.Dialog

namespace Cli

open Ipc

/-! ## What is asked -/

/-- The answer approves, and its frame is on the stream in full. -/
def Answer.Approves (a : Answer) : Prop :=
  a.response.approved = true ∧ a.stream.written = Frame.send a.response.json.toVec

/-- It is due to an allow key that was pressed with its dialog on the screen. -/
def Answer.Timely (a : Answer) : Prop :=
  ∃ press ∈ a.press, (∃ key, press.event = .key key ∧ key.Allows) ∧
    press.saw = some a.stream.id

/-- The terminal says that the dialog of the connection was allowed. -/
def Reported (words : List Said) (id : Nat) : Prop := ∃ t ∈ words, t.Allows id

/-- What is approved is approved in time, and reported as it is. -/
def Faithful (answers : List Answer) (words : List Said) : Prop :=
  (∀ a ∈ answers, a.Approves → a.Timely) ∧
    ∀ id, Reported words id ↔ ∃ a ∈ answers, a.stream.id = id ∧ a.Approves

/-- Nothing is approved and nothing reported. -/
def Silent (answers : List Answer) (words : List Said) : Prop :=
  (∀ a ∈ answers, a.response.approved = false) ∧ ∀ t ∈ words, ∀ id, ¬ t.Allows id

theorem approves_iff {s : UiStream} (hfresh : s.written = []) {r : UiDialogResponse}
    (hr : r.approved = true) (press : Option Press) :
    (Answer.mk (s.writeDialogResponse r).1 r press).Approves ↔ s.Takes r.json.toVec := by
  rw [Answer.Approves]
  dsimp only
  rw [UiStream.written_eq_iff hfresh r, and_iff_right hr]

theorem not_allows_label {label : String} (h : ∀ rest, label ≠ "ALLOWED" ++ rest) (id about : Nat)
    (dialog : UiDialogRequest) (notice : Option String) :
    ¬ (Said.answered about label dialog notice).Allows id := by
  rintro ⟨-, rest, hrest⟩
  exact h rest hrest

theorem denied_ne (rest : String) : "DENIED" ≠ "ALLOWED" ++ rest := by
  intro h
  have hlist := congrArg String.toList h
  rw [String.toList_append] at hlist
  cases hlist

theorem Silent.faithful {answers : List Answer} {words : List Said} (h : Silent answers words) :
    Faithful answers words := by
  have hnone : ∀ a ∈ answers, ¬ a.Approves := by
    intro a ha happroves
    rw [Answer.Approves, h.1 a ha] at happroves
    exact Bool.false_ne_true happroves.1
  refine ⟨fun a ha happroves => absurd happroves (hnone a ha), fun id => iff_of_false ?_ ?_⟩
  · rintro ⟨t, ht, hallows⟩
    exact h.2 t ht id hallows
  · rintro ⟨a, ha, -, happroves⟩
    exact hnone a ha happroves

theorem Silent.append {as bs : List Answer} {ws vs : List Said} (h : Silent as ws)
    (h' : Silent bs vs) : Silent (as ++ bs) (ws ++ vs) :=
  ⟨List.forall_mem_append.mpr ⟨h.1, h'.1⟩, List.forall_mem_append.mpr ⟨h.2, h'.2⟩⟩

theorem reported_append {ws vs : List Said} {id : Nat} :
    Reported (ws ++ vs) id ↔ Reported ws id ∨ Reported vs id := by
  simp only [Reported, List.mem_append, or_and_right, exists_or]

/-- Answers to other connections are judged by themselves. -/
theorem faithful_append {as bs : List Answer} {ws vs : List Said}
    (hdisj : ∀ a ∈ as, ∀ b ∈ bs, a.stream.id ≠ b.stream.id)
    (hnew : ∀ id, Reported vs id → ∃ b ∈ bs, b.stream.id = id) (hold : Faithful as ws) :
    Faithful (as ++ bs) (ws ++ vs) ↔ Faithful bs vs := by
  constructor
  · rintro ⟨htimely, hreported⟩
    refine ⟨fun b hb => htimely b (List.mem_append_right _ hb), fun id => ⟨fun h => ?_, ?_⟩⟩
    · obtain ⟨a, ha, hid, happroves⟩ := (hreported id).mp (reported_append.mpr (Or.inr h))
      rcases List.mem_append.mp ha with ha | ha
      · obtain ⟨b, hb, hbid⟩ := hnew id h
        exact absurd (hid.trans hbid.symm) (hdisj a ha b hb)
      · exact ⟨a, ha, hid, happroves⟩
    · rintro ⟨b, hb, hid, happroves⟩
      have hrep := (hreported id).mpr ⟨b, List.mem_append_right _ hb, hid, happroves⟩
      rcases reported_append.mp hrep with hrep | hrep
      · obtain ⟨a, ha, haid, -⟩ := (hold.2 id).mp hrep
        exact absurd (haid.trans hid.symm) (hdisj a ha b hb)
      · exact hrep
  · rintro ⟨htimely, hreported⟩
    refine ⟨List.forall_mem_append.mpr ⟨hold.1, htimely⟩, fun id => ?_⟩
    rw [reported_append, hold.2 id, hreported id]
    simp only [List.mem_append, or_and_right, exists_or]

namespace Watch

variable {Time : Type} {K : Codecs Time} {w w' w'' : Watch}

/-- The streams that wait for an answer. -/
def openStreams (w : Watch) : List UiStream :=
  w.connections.map (·.stream) ++ w.queue.map (·.stream)

def openIds (w : Watch) : List Nat := w.openStreams.map (·.id)

def answeredIds (w : Watch) : List Nat := w.answers.map (·.stream.id)

/-- Nothing has been written to them. -/
def Fresh (w : Watch) : Prop := ∀ s ∈ w.openStreams, s.written = []

/-- On each stream that was answered is a part of that one answer. -/
def WritesOnce (answers : List Answer) : Prop :=
  ∀ a ∈ answers, a.stream.written <+: Frame.send a.response.json.toVec

structure Sound (w : Watch) : Prop where
  /-- No dialog has two answers. -/
  once : w.answeredIds.Nodup ∧ WritesOnce w.answers
  faithful : Faithful w.answers w.said

/-! ## What a turn does -/

/-- From one state to another with some answers and some words, and no new connection. -/
structure Passes (w w' : Watch) (new : List Answer) (words : List Said) : Prop where
  answers : w'.answers = w.answers ++ new
  said : w'.said = w.said ++ words
  accepted : w'.accepted = w.accepted
  ids : (w'.openIds ++ new.map (·.stream.id)).Perm w.openIds
  fresh : w.Fresh → w'.Fresh ∧ WritesOnce new

/-- From one to another with nothing approved and nothing reported. -/
def Quiet (w w' : Watch) : Prop := ∃ new words, Passes w w' new words ∧ Silent new words

/-- And nothing answered. -/
def Still (w w' : Watch) : Prop := ∃ words, Passes w w' [] words ∧ Silent [] words

theorem Still.quiet (h : Still w w') : Quiet w w' := ⟨[], h⟩

theorem silent_nil : Silent [] [] := ⟨List.forall_mem_nil _, List.forall_mem_nil _⟩

theorem Passes.trans {new new' : List Answer} {words words' : List Said}
    (h : Passes w w' new words) (h' : Passes w' w'' new' words') :
    Passes w w'' (new ++ new') (words ++ words') where
  answers := by rw [h'.answers, h.answers, List.append_assoc]
  said := by rw [h'.said, h.said, List.append_assoc]
  accepted := h'.accepted.trans h.accepted
  ids := by
    refine List.Perm.trans ?_ h.ids
    rw [List.map_append]
    refine List.Perm.trans ?_ (h'.ids.append_right _)
    rw [List.append_assoc]
    exact List.perm_append_comm.append_left _
  fresh hfresh :=
    ⟨(h'.fresh (h.fresh hfresh).1).1,
      List.forall_mem_append.mpr ⟨(h.fresh hfresh).2, (h'.fresh (h.fresh hfresh).1).2⟩⟩

/-- Streams and answers are as they were. -/
theorem Passes.of_same {words : List Said} (hopen : w'.openStreams = w.openStreams)
    (hanswers : w'.answers = w.answers) (haccepted : w'.accepted = w.accepted)
    (hsaid : w'.said = w.said ++ words) : Passes w w' [] words where
  answers := by rw [hanswers, List.append_nil]
  said := hsaid
  accepted := haccepted
  ids := by
    rw [List.map_nil, List.append_nil, openIds, openIds, hopen]
  fresh hfresh := by
    refine ⟨?_, List.forall_mem_nil _⟩
    rw [Fresh, hopen]
    exact hfresh

theorem still_of_same (hopen : w'.openStreams = w.openStreams) (hanswers : w'.answers = w.answers)
    (haccepted : w'.accepted = w.accepted) (hsaid : w'.said = w.said) : Still w w' :=
  ⟨[], .of_same hopen hanswers haccepted (by rw [hsaid, List.append_nil]), silent_nil⟩

theorem still_of_said {t : Said} (ht : ∀ id, ¬ t.Allows id)
    (hopen : w'.openStreams = w.openStreams) (hanswers : w'.answers = w.answers)
    (haccepted : w'.accepted = w.accepted) (hsaid : w'.said = w.said ++ [t]) : Still w w' :=
  ⟨[t], .of_same hopen hanswers haccepted hsaid,
    List.forall_mem_nil _, List.forall_mem_singleton.mpr ht⟩

theorem Quiet.trans (h : Quiet w w') (h' : Quiet w' w'') : Quiet w w'' := by
  obtain ⟨new, words, hpass, hsilent⟩ := h
  obtain ⟨new', words', hpass', hsilent'⟩ := h'
  exact ⟨_, _, hpass.trans hpass', hsilent.append hsilent'⟩

theorem fresh_front {pending : PendingApproval} {queue : List PendingApproval}
    (hqueue : w.queue = pending :: queue) (h : w.Fresh) : pending.stream.written = [] := by
  refine h _ (List.mem_append_right _ ?_)
  rw [hqueue]
  exact List.mem_cons_self

theorem writesOnce_answer {s : UiStream} (hfresh : s.written = []) (r : UiDialogResponse)
    (press : Option Press) : WritesOnce [⟨(s.writeDialogResponse r).1, r, press⟩] := by
  refine List.forall_mem_singleton.mpr ?_
  dsimp only
  exact UiStream.written_prefix hfresh r

/-- One open stream is answered. -/
theorem passes_respond {pending : PendingApproval} {queue : List PendingApproval}
    (hqueue : w.queue = pending :: queue) (response : UiDialogResponse) (label : String)
    (press : Press) :
    Passes w
      (({ w with queue := queue, bannerShown := false }).respond pending response label press)
      [⟨(pending.stream.writeDialogResponse response).1, response, some press⟩]
      [.answered pending.stream.id label pending.dialog response.notice] where
  answers := rfl
  said := rfl
  accepted := rfl
  ids := by
    refine List.perm_iff_count.mpr fun id => ?_
    simp [respond, openIds, openStreams, hqueue, List.count_append, List.count_cons]
  fresh hfresh := by
    refine ⟨fun s hs => hfresh s ?_, writesOnce_answer (fresh_front hqueue hfresh) response _⟩
    rcases List.mem_append.mp hs with hs | hs
    · exact List.mem_append_left _ hs
    · rw [openStreams, hqueue]
      exact List.mem_append_right _ (List.mem_cons_of_mem _ hs)

theorem quiet_receive {c : Connection} {connections : List Connection}
    (hconnections : w.connections = c :: connections) :
    Quiet w (({ w with connections := connections }).receive K c) := by
  have hmem : ∀ {s : UiStream}, s ∈ connections.map (·.stream) ++ w.queue.map (·.stream) →
      s ∈ w.openStreams := by
    intro s hs
    rw [openStreams, hconnections]
    exact List.mem_cons_of_mem _ hs
  have hc : c.stream ∈ w.openStreams := by
    rw [openStreams, hconnections]
    exact List.mem_cons_self
  unfold receive
  split
  · next dialog _ _ =>
      refine ⟨[], if w.queue.isEmpty then [] else [.queued dialog], ⟨?_, ?_, rfl, ?_, ?_⟩, ?_⟩
      · exact (List.append_nil _).symm
      · by_cases hempty : w.queue.isEmpty
        · simp [hempty]
        · simp [hempty]
      · refine List.perm_iff_count.mpr fun id => ?_
        simp [openIds, openStreams, hconnections, List.count_append, List.count_cons]
        omega
      · intro hfresh
        refine ⟨fun s hs => ?_, List.forall_mem_nil _⟩
        simp only [openStreams, List.map_append, List.map_cons, List.map_nil] at hs
        rw [← List.append_assoc, List.mem_append, List.mem_singleton] at hs
        rcases hs with hs | rfl
        · exact hfresh s (hmem hs)
        · exact hfresh _ hc
      · refine ⟨List.forall_mem_nil _, fun t ht id hallows => ?_⟩
        split at ht
        · cases ht
        · rw [List.mem_singleton.mp ht] at hallows
          exact hallows
  · refine ⟨[_], [], ⟨rfl, (List.append_nil _).symm, rfl, ?_, ?_⟩, ?_⟩
    · refine List.perm_iff_count.mpr fun id => ?_
      simp [openIds, openStreams, hconnections, List.count_append, List.count_cons]
      omega
    · intro hfresh
      exact ⟨fun s hs => hfresh s (hmem hs), writesOnce_answer (hfresh _ hc) _ _⟩
    · exact ⟨List.forall_mem_singleton.mpr rfl, List.forall_mem_nil _⟩

theorem still_toTerminal : Still w w.toTerminal := by
  unfold toTerminal
  split
  · exact still_of_same rfl rfl rfl rfl
  · split
    · exact still_of_same rfl rfl rfl rfl
    · exact still_of_said (by rintro _ ⟨⟩) rfl rfl rfl rfl

theorem still_pollIdle : Still w w.pollIdle := by
  unfold pollIdle
  split
  · exact still_of_same rfl rfl rfl rfl
  · split
    · exact still_of_said (by rintro _ ⟨⟩) rfl rfl rfl rfl
    · exact still_of_same rfl rfl rfl rfl

theorem quiet_quit {pending : PendingApproval} {queue : List PendingApproval}
    (hqueue : w.queue = pending :: queue) (press : Press) :
    Quiet w (w.answerFront press .quit) := by
  unfold answerFront
  rw [hqueue]
  refine ⟨(pending :: queue).map (quitAnswer press), [.stopped true],
    ⟨rfl, rfl, rfl, ?_, ?_⟩, ?_, ?_⟩
  · refine List.perm_iff_count.mpr fun id => ?_
    simp [openIds, openStreams, hqueue, quitAnswer, Function.comp_def]
  · intro hfresh
    refine ⟨fun s hs => hfresh s ?_, fun a ha => ?_⟩
    · rw [openStreams, List.map_nil, List.append_nil] at hs
      exact List.mem_append_left _ hs
    · obtain ⟨p, hp, rfl⟩ := List.mem_map.mp ha
      have hp' : p.stream ∈ w.openStreams := by
        rw [openStreams, hqueue]
        exact List.mem_append_right _ (List.mem_map_of_mem hp)
      unfold quitAnswer
      dsimp only
      exact UiStream.written_prefix (hfresh _ hp') _
  · intro a ha
    obtain ⟨p, -, rfl⟩ := List.mem_map.mp ha
    rfl
  · exact List.forall_mem_singleton.mpr fun _ h => h

/-- A choice that does not approve. -/
theorem quiet_answerFront {press : Press} {choice : UserChoice} (h : choice.approval = none) :
    Quiet w (w.answerFront press choice) := by
  cases hqueue : w.queue with
  | nil =>
      unfold answerFront
      rw [hqueue]
      exact Still.quiet (still_of_same rfl rfl rfl rfl)
  | cons pending queue =>
      cases choice with
      | allow => cases h
      | allowWithNotice notice => cases h
      | quit => exact quiet_quit hqueue press
      | deny =>
          unfold answerFront
          rw [hqueue]
          refine ⟨_, _, passes_respond hqueue _ _ _, List.forall_mem_singleton.mpr rfl,
            List.forall_mem_singleton.mpr fun id => ?_⟩
          exact not_allows_label denied_ne id _ _ _

/-- A choice that does. -/
theorem passes_answerFront {pending : PendingApproval} {queue : List PendingApproval}
    (hqueue : w.queue = pending :: queue) {choice : UserChoice} {r : UiDialogResponse}
    (h : choice.approval = some r) (press : Press) :
    ∃ label rest, label = "ALLOWED" ++ rest ∧ Passes w (w.answerFront press choice)
      [⟨(pending.stream.writeDialogResponse r).1, r, some press⟩]
      [.answered pending.stream.id label pending.dialog r.notice] := by
  unfold answerFront
  rw [hqueue]
  cases choice with
  | allow =>
      cases h
      exact ⟨"ALLOWED", "", rfl, passes_respond hqueue _ _ _⟩
  | allowWithNotice notice =>
      cases h
      refine ⟨_, " (notice: " ++ notice ++ ")", ?_, passes_respond hqueue _ _ _⟩
      rw [← String.append_assoc, ← String.append_assoc]
      rfl
  | deny => cases h
  | quit => cases h

/-- `poll_keyboard` takes one event and leaves the dialogs alone. -/
theorem pollKeyboard_cases (line : String) (parsed : Nat) (w : Watch) :
    (w.pollKeyboard line parsed).2.queue = w.queue ∧ Still w (w.pollKeyboard line parsed).2 ∧
      ∀ press choice, (w.pollKeyboard line parsed).1 = some (press, choice) →
        w.typed.head? = some press ∧
          ∃ key, press.event = .key key ∧ mapKey line key = some choice := by
  unfold pollKeyboard
  split
  · exact ⟨rfl, still_of_same rfl rfl rfl rfl, fun _ _ h => by cases h⟩
  · next press typed htyped =>
      split
      · exact ⟨rfl, still_of_same rfl rfl rfl rfl, fun _ _ h => by cases h⟩
      · next key hkey =>
          split
          · exact ⟨rfl, still_of_same rfl rfl rfl rfl, fun _ _ h => by cases h⟩
          · next notice hmap =>
              refine ⟨rfl, still_of_said (by rintro _ ⟨⟩) rfl rfl rfl rfl, ?_⟩
              rintro _ _ ⟨⟩
              exact ⟨by rw [htyped]; rfl, key, hkey, hmap⟩
          · next choice hmap =>
              refine ⟨rfl, still_of_same rfl rfl rfl rfl, ?_⟩
              rintro _ _ ⟨⟩
              exact ⟨by rw [htyped]; rfl, key, hkey, hmap⟩

theorem pollKeyboard_of_choice {line : String} (parsed : Nat) {press : Press} {key : KeyEvent}
    {choice : UserChoice} (htyped : w.typed.head? = some press) (hkey : press.event = .key key)
    (hmap : mapKey line key = some choice) :
    (w.pollKeyboard line parsed).1 = some (press, choice) := by
  obtain ⟨typed, htyped⟩ := List.head?_eq_some_iff.mp htyped
  unfold pollKeyboard
  rw [htyped]
  dsimp only
  rw [hkey]
  dsimp only
  rw [hmap]
  cases choice <;> rfl

/-- A turn that approves: the front of the queue, with this answer, at this key. -/
structure Approving (w : Watch) (line : String) (press : Press) (pending : PendingApproval)
    (r : UiDialogResponse) : Prop where
  asking : w.phase = .asking
  typed : w.typed.head? = some press
  front : w.queue.head? = some pending
  choice : ∃ key choice, press.event = .key key ∧ mapKey line key = some choice ∧
    choice.approval = some r

theorem Approving.unique {line : String} {press press' : Press}
    {pending pending' : PendingApproval} {r r' : UiDialogResponse}
    (h : w.Approving line press pending r) (h' : w.Approving line press' pending' r') :
    press = press' ∧ pending = pending' ∧ r = r' := by
  obtain ⟨-, htyped, hfront, key, choice, hkey, hmap, hr⟩ := h
  obtain ⟨-, htyped', hfront', key', choice', hkey', hmap', hr'⟩ := h'
  obtain rfl := Option.some.inj (htyped.symm.trans htyped')
  obtain rfl := Option.some.inj (hfront.symm.trans hfront')
  obtain rfl := TermEvent.key.inj (hkey.symm.trans hkey')
  obtain rfl := Option.some.inj (hmap.symm.trans hmap')
  exact ⟨rfl, rfl, Option.some.inj (hr.symm.trans hr')⟩

theorem turn_silent {line : String} {parsed : Nat}
    (h : ∀ press pending r, ¬ w.Approving line press pending r) :
    Quiet w (w.turn K line parsed) := by
  unfold turn
  split
  · split
    · exact still_toTerminal.quiet
    · next hconnections => exact quiet_receive hconnections
  · exact still_pollIdle.quiet
  · next hphase =>
      have hstart : Still w { w with phase := .receiving } := still_of_same rfl rfl rfl rfl
      obtain ⟨hqueue, hstill, hpress⟩ :=
        pollKeyboard_cases line parsed { w with phase := .receiving }
      unfold ask
      split
      · next w' hpoll =>
          rw [hpoll] at hstill
          exact hstart.quiet.trans hstill.quiet
      · next press choice w' hpoll =>
          rw [hpoll] at hqueue hstill hpress
          obtain ⟨htyped, key, hkey, hmap⟩ := hpress press choice rfl
          refine (hstart.quiet.trans hstill.quiet).trans ?_
          cases hr : choice.approval with
          | none => exact quiet_answerFront hr
          | some r =>
              cases hfront : w'.queue with
              | nil =>
                  unfold answerFront
                  rw [hfront]
                  exact Still.quiet (still_of_same rfl rfl rfl rfl)
              | cons pending queue =>
                  refine absurd ⟨hphase, htyped, ?_, key, choice, hkey, hmap, hr⟩
                    (h press pending r)
                  rw [← show w'.queue = w.queue from hqueue, hfront]
                  rfl
  · exact Still.quiet (still_of_same rfl rfl rfl rfl)

theorem turn_approves {line : String} (parsed : Nat) {press : Press} {pending : PendingApproval}
    {r : UiDialogResponse} (h : w.Approving line press pending r) :
    ∃ words, Passes w (w.turn K line parsed)
      [⟨(pending.stream.writeDialogResponse r).1, r, some press⟩] words ∧
        ∀ id, Reported words id ↔ pending.stream.id = id := by
  obtain ⟨hphase, htyped, hfront, key, choice, hkey, hmap, hr⟩ := h
  obtain ⟨hqueue, hstill, -⟩ := pollKeyboard_cases line parsed { w with phase := .receiving }
  have hpoll := pollKeyboard_of_choice (w := { w with phase := .receiving }) parsed
    htyped hkey hmap
  unfold turn
  rw [hphase]
  dsimp only
  unfold ask
  split
  · next w' hnone =>
      rw [hnone] at hpoll
      cases hpoll
  · next press' choice' w' hsome =>
      rw [hsome] at hpoll hqueue hstill
      cases hpoll
      obtain ⟨queue, hfront⟩ := List.head?_eq_some_iff.mp hfront
      obtain ⟨label, rest, rfl, hpass⟩ :=
        passes_answerFront (w := w') (hqueue.trans hfront) hr press
      obtain ⟨words, hsaid, -, hsilent⟩ := hstill
      have hstart : Passes w { w with phase := .receiving } [] [] :=
        .of_same rfl rfl rfl (List.append_nil _).symm
      have hall := hstart.trans (hsaid.trans hpass)
      refine ⟨_, hall, fun id => ?_⟩
      rw [List.nil_append]
      constructor
      · rintro ⟨t, ht, hallows⟩
        rcases List.mem_append.mp ht with ht | ht
        · exact absurd hallows (hsilent t ht id)
        · rw [List.mem_singleton.mp ht] at hallows
          exact hallows.1
      · rintro rfl
        exact ⟨_, List.mem_append_right _ (List.mem_singleton_self _), rfl, rest, rfl⟩

/-! ## Each connection once -/

/-- Every connection waits or was answered, and what waits has had nothing written to it. -/
structure Numbered (w : Watch) : Prop where
  distinct : (w.openIds ++ w.answeredIds).Nodup
  below : ∀ id ∈ w.openIds ++ w.answeredIds, id < w.accepted
  fresh : w.Fresh
  writesOnce : WritesOnce w.answers

theorem numbered_new : Numbered new :=
  ⟨List.nodup_nil, List.forall_mem_nil _, List.forall_mem_nil _, List.forall_mem_nil _⟩

theorem Passes.numbered {new : List Answer} {words : List Said} (h : Passes w w' new words)
    (hn : Numbered w) : Numbered w' := by
  have hperm : (w'.openIds ++ w'.answeredIds).Perm (w.openIds ++ w.answeredIds) := by
    rw [answeredIds, h.answers, List.map_append]
    calc (w'.openIds ++ (w.answeredIds ++ new.map (·.stream.id))).Perm
          (w'.openIds ++ (new.map (·.stream.id) ++ w.answeredIds)) :=
        List.perm_append_comm.append_left _
      _ = (w'.openIds ++ new.map (·.stream.id)) ++ w.answeredIds := (List.append_assoc _ _ _).symm
      _ |>.Perm (w.openIds ++ w.answeredIds) := h.ids.append_right _
  refine ⟨hperm.nodup_iff.mpr hn.distinct, fun id hid => ?_, (h.fresh hn.fresh).1, ?_⟩
  · rw [h.accepted]
    exact hn.below id (hperm.mem_iff.mp hid)
  · rw [h.answers]
    exact List.forall_mem_append.mpr ⟨hn.writesOnce, (h.fresh hn.fresh).2⟩

/-- HAL's side of a connection goes away. -/
theorem passes_timeOut (id room : Nat) : Passes w (w.timeOut id room) [] [] where
  answers := (List.append_nil _).symm
  said := (List.append_nil _).symm
  accepted := rfl
  ids := by
    rw [List.map_nil, List.append_nil]
    have hid : ∀ s : UiStream, (if s.id = id then s.timeOut room else s).id = s.id := by
      intro s
      split <;> rfl
    simp [openIds, openStreams, timeOut, Function.comp_def, hid]
  fresh hfresh := by
    refine ⟨fun s hs => ?_, List.forall_mem_nil _⟩
    have hwritten : ∀ s : UiStream, (if s.id = id then s.timeOut room else s).written =
        s.written := by
      intro s
      split <;> rfl
    simp only [openStreams, timeOut, List.map_map, Function.comp_def] at hs
    rcases List.mem_append.mp hs with hs | hs
    · obtain ⟨c, hc, rfl⟩ := List.mem_map.mp hs
      rw [hwritten]
      exact hfresh _ (List.mem_append_left _ (List.mem_map_of_mem hc))
    · obtain ⟨p, hp, rfl⟩ := List.mem_map.mp hs
      rw [hwritten]
      exact hfresh _ (List.mem_append_right _ (List.mem_map_of_mem hp))

/-- A new connection has a number of its own. -/
theorem numbered_connect (hn : Numbered w) (arriving : List UInt8) :
    Numbered (w.step K (.connect arriving)) := by
  have hperm : ((w.step K (.connect arriving)).openIds ++ w.answeredIds).Perm
      (w.accepted :: (w.openIds ++ w.answeredIds)) := by
    refine List.perm_iff_count.mpr fun id => ?_
    simp [step, openIds, openStreams, List.count_append, List.count_cons]
    omega
  refine ⟨hperm.nodup_iff.mpr (List.nodup_cons.mpr ⟨fun h => ?_, hn.distinct⟩), fun id hid => ?_,
    fun s hs => ?_, hn.writesOnce⟩
  · exact absurd (hn.below _ h) (Nat.lt_irrefl _)
  · rcases List.mem_cons.mp (hperm.mem_iff.mp hid) with rfl | hid
    · exact Nat.lt_succ_self _
    · exact (hn.below id hid).trans (Nat.lt_succ_self _)
  · simp only [step, openStreams, List.map_append, List.map_cons, List.map_nil, List.append_assoc,
      List.mem_append, List.mem_singleton] at hs
    rcases hs with hs | rfl | hs
    · exact hn.fresh s (List.mem_append_left _ hs)
    · rfl
    · exact hn.fresh s (List.mem_append_right _ hs)

/-- A step that is neither a new connection nor a turn that approves. -/
theorem step_quiet {e : Event} (hconnect : ∀ arriving, e ≠ .connect arriving)
    (hturn : ∀ line parsed, e = .turn line parsed → ∀ press pending r,
      ¬ w.Approving line press pending r) : Quiet w (w.step K e) := by
  cases e with
  | connect arriving => exact absurd rfl (hconnect arriving)
  | timeOut id room => exact ⟨[], [], passes_timeOut id room, silent_nil⟩
  | typed event => exact Still.quiet (still_of_same rfl rfl rfl rfl)
  | turn line parsed => exact turn_silent (hturn line parsed rfl)
  | keyboardFails call e =>
      unfold step
      dsimp only
      split <;> exact Still.quiet (still_of_same rfl rfl rfl rfl)

theorem numbered_step (hn : Numbered w) (e : Event) : Numbered (w.step K e) := by
  by_cases hturn : ∃ line parsed press pending r, e = .turn line parsed ∧
      w.Approving line press pending r
  · obtain ⟨line, parsed, press, pending, r, rfl, happroving⟩ := hturn
    obtain ⟨words, hpass, -⟩ := turn_approves (K := K) parsed happroving
    exact hpass.numbered hn
  · by_cases hconnect : ∃ arriving, e = .connect arriving
    · obtain ⟨arriving, rfl⟩ := hconnect
      exact numbered_connect hn arriving
    · obtain ⟨new, words, hpass, -⟩ := step_quiet (K := K) (w := w)
        (fun arriving he => hconnect ⟨arriving, he⟩)
        (fun line parsed he press pending r h => hturn ⟨line, parsed, press, pending, r, he, h⟩)
      exact hpass.numbered hn

/-! ## Sound watches -/

/-- What a turn approves was on the screen when the key was pressed, and goes out in full. -/
def Heeded (w : Watch) : Event → Prop
  | .turn line _ => ∀ press pending r, w.Approving line press pending r →
      press.saw = some pending.stream.id ∧ pending.stream.Takes r.json.toVec
  | _ => True

theorem Numbered.once (hn : Numbered w) : w.answeredIds.Nodup ∧ WritesOnce w.answers :=
  ⟨(List.nodup_append.mp hn.distinct).2.1, hn.writesOnce⟩

/-- What a step answers had not been answered. -/
theorem Passes.disjoint {new : List Answer} {words : List Said} (h : Passes w w' new words)
    (hn : Numbered w) : ∀ a ∈ w.answers, ∀ b ∈ new, a.stream.id ≠ b.stream.id := by
  intro a ha b hb he
  have hopen : b.stream.id ∈ w.openIds :=
    h.ids.mem_iff.mp (List.mem_append_right _ (List.mem_map_of_mem hb))
  have hanswered : a.stream.id ∈ w.answeredIds := List.mem_map_of_mem ha
  exact (List.nodup_append.mp hn.distinct).2.2 _ hopen _ hanswered he.symm

/-- A watch stays sound exactly when what is new is. -/
theorem Passes.sound_iff_new {new : List Answer} {words : List Said} (h : Passes w w' new words)
    (hn : Numbered w) (hsound : Sound w)
    (hnew : ∀ id, Reported words id → ∃ b ∈ new, b.stream.id = id) :
    Sound w' ↔ Faithful new words := by
  have happend := faithful_append (h.disjoint hn) hnew hsound.faithful
  rw [← h.answers, ← h.said] at happend
  exact ⟨fun hs => happend.mp hs.faithful, fun hf => ⟨(h.numbered hn).once, happend.mpr hf⟩⟩

theorem Quiet.sound (h : Quiet w w') (hn : Numbered w) (hsound : Sound w) : Sound w' := by
  obtain ⟨new, words, hpass, hsilent⟩ := h
  refine (hpass.sound_iff_new hn hsound fun id => ?_).mpr hsilent.faithful
  rintro ⟨t, ht, hallows⟩
  exact absurd hallows (hsilent.2 t ht id)

/-- One answer to an allow key that is reported: both sides of it have to be right. -/
theorem faithful_singleton {a : Answer} {words : List Said} {press : Press}
    (hreported : ∀ id, Reported words id ↔ a.stream.id = id) (hpress : a.press = some press)
    (hkey : ∃ key, press.event = .key key ∧ key.Allows) :
    Faithful [a] words ↔ press.saw = some a.stream.id ∧ a.Approves := by
  constructor
  · rintro ⟨htimely, hiff⟩
    obtain ⟨b, hb, -, happroves⟩ := (hiff a.stream.id).mp ((hreported _).mpr rfl)
    rw [List.mem_singleton.mp hb] at happroves
    obtain ⟨press', hpress', -, hsaw⟩ := htimely a (List.mem_singleton_self a) happroves
    rw [hpress] at hpress'
    cases hpress'
    exact ⟨hsaw, happroves⟩
  · rintro ⟨hsaw, happroves⟩
    refine ⟨List.forall_mem_singleton.mpr fun _ => ⟨press, hpress, hkey, hsaw⟩, fun id => ?_⟩
    rw [hreported id]
    constructor
    · intro hid
      exact ⟨a, List.mem_singleton_self a, hid, happroves⟩
    · rintro ⟨b, hb, hid, -⟩
      rw [← List.mem_singleton.mp hb]
      exact hid

theorem turn_sound_iff {line : String} {parsed : Nat} {press : Press} {pending : PendingApproval}
    {r : UiDialogResponse} (hn : Numbered w) (hsound : Sound w)
    (h : w.Approving line press pending r) :
    Sound (w.turn K line parsed) ↔
      press.saw = some pending.stream.id ∧ pending.stream.Takes r.json.toVec := by
  obtain ⟨words, hpass, hreported⟩ := turn_approves (K := K) parsed h
  obtain ⟨-, -, hfront, key, choice, hkey, hmap, hr⟩ := h
  obtain ⟨hallows, happroved⟩ := approval_mapKey hmap hr
  obtain ⟨queue, hqueue⟩ := List.head?_eq_some_iff.mp hfront
  obtain ⟨a, ha⟩ : ∃ a : Answer, a = ⟨(pending.stream.writeDialogResponse r).1, r, some press⟩ :=
    ⟨_, rfl⟩
  rw [← ha] at hpass
  have hid : a.stream.id = pending.stream.id := by simp [ha]
  have happroves : a.Approves ↔ pending.stream.Takes r.json.toVec := by
    rw [ha]
    exact approves_iff (fresh_front hqueue hn.fresh) happroved _
  have hpress : a.press = some press := by rw [ha]
  have hfaithful := faithful_singleton (by rw [hid]; exact hreported) hpress ⟨key, hkey, hallows⟩
  rw [hid, happroves] at hfaithful
  refine (hpass.sound_iff_new hn hsound fun id hrep => ?_).trans hfaithful
  exact ⟨a, List.mem_singleton_self a, hid.trans ((hreported id).mp hrep)⟩

/-- What keeps a sound watch sound. -/
theorem sound_step_iff (hn : Numbered w) (hsound : Sound w) (e : Event) :
    Sound (w.step K e) ↔ w.Heeded e := by
  cases e with
  | connect arriving =>
      exact iff_of_true ⟨(numbered_connect (K := K) hn arriving).once, hsound.faithful⟩ trivial
  | turn line parsed =>
      by_cases h : ∃ press pending r, w.Approving line press pending r
      · obtain ⟨press, pending, r, happroving⟩ := h
        refine (turn_sound_iff hn hsound happroving).trans ⟨?_, fun hall => hall _ _ _ happroving⟩
        intro hgood press' pending' r' happroving'
        obtain ⟨rfl, rfl, rfl⟩ := happroving.unique happroving'
        exact hgood
      · have hnone : ∀ press pending r, ¬ w.Approving line press pending r :=
          fun press pending r happroving => h ⟨press, pending, r, happroving⟩
        refine iff_of_true ((turn_silent hnone).sound hn hsound) ?_
        intro press pending r happroving
        exact absurd happroving (hnone press pending r)
  | _ =>
      refine iff_of_true ((step_quiet ?_ ?_).sound hn hsound) trivial
      · rintro _ ⟨⟩
      · rintro _ _ ⟨⟩

/-- A run is sound throughout exactly when all its approving turns are heeded. -/
theorem sound_throughout_iff {Time : Type} (K : Codecs Time) (events : List Event) :
    Run.Throughout (step K) Sound new events ↔ Run.Along (step K) Heeded new events := by
  refine Run.throughout_iff_along (I := fun w => Numbered w ∧ Sound w) (step K) (fun _ h => h.2)
    ?_ ?_ ⟨numbered_new, numbered_new.once, silent_nil.faithful⟩
  · intro w e h
    exact sound_step_iff h.1 h.2 e
  · intro w e h hheeded
    exact ⟨numbered_step h.1 e, (sound_step_iff h.1 h.2 e).mpr hheeded⟩

/-! ## A key typed ahead -/

def allowKey : TermEvent := .key ⟨.char 'a', false⟩

/-- Two dialogs wait; with the first on the screen `a` is pressed twice, and each press is read. -/
def typedAhead (arriving : List UInt8) : List Event :=
  [.connect arriving, .connect arriving, .turn "" 0, .turn "" 0, .turn "" 0, .typed allowKey,
    .typed allowKey, .turn "" 0, .turn "" 0, .turn "" 0]

/-- The second dialog is approved by a key that was pressed before it was shown. -/
theorem answers_typedAhead {arriving rest : List UInt8} {dialog : UiDialogRequest}
    (h : readDialog K arriving = .ok (dialog, rest)) :
    (Run.after (step K) new (typedAhead arriving)).answers =
      [⟨((⟨0, [], none⟩ : UiStream).writeDialogResponse ⟨true, none⟩).1, ⟨true, none⟩,
          some ⟨allowKey, some 0⟩⟩,
        ⟨((⟨1, [], none⟩ : UiStream).writeDialogResponse ⟨true, none⟩).1, ⟨true, none⟩,
          some ⟨allowKey, some 0⟩⟩] := by
  simp [Run.after, typedAhead, step, turn, receive, h, toTerminal, ask, pollKeyboard, answerFront,
    respond, new, onScreen, allowKey, mapKey, Said.isBanner]

/-- The plain approval fits a frame. -/
theorem takes_allow (id : Nat) :
    (⟨id, [], none⟩ : UiStream).Takes (UiDialogResponse.mk true none).json.toVec :=
  ⟨by decide, fun _ h => by cases h⟩

theorem unsound_typedAhead {arriving rest : List UInt8} {dialog : UiDialogRequest}
    (h : readDialog K arriving = .ok (dialog, rest)) :
    ¬ Sound (Run.after (step K) new (typedAhead arriving)) := by
  rintro ⟨-, htimely, -⟩
  rw [answers_typedAhead h] at htimely
  have happroves := (approves_iff rfl rfl (some ⟨allowKey, some 0⟩)).mpr (takes_allow 1)
  obtain ⟨press, hpress, -, hsaw⟩ := htimely _
    (List.mem_cons_of_mem _ List.mem_cons_self) happroves
  cases hpress
  simp at hsaw

/-- HAL asks twice about opening `/a`. -/
theorem not_sound_throughout_typedAhead :
    ¬ ∀ {Time : Type} (K : Codecs Time) (events : List Event),
      Run.Throughout (step K) Sound new events := by
  intro h
  have hfile : Json.escapedLen (System.openName 1).agent = 4 :=
    (by decide : Json.escapedLen "file" = 4)
  have hopen : Json.escapedLen (System.openName 1).action = 9 :=
    (by decide : Json.escapedLen "open_file" = 9)
  have hsize : System.dialogSize "/home/ana" (System.openName 1) ≤ maxUiFrameBytes := by
    unfold System.dialogSize maxUiFrameBytes
    rw [System.escapedLen_openName, hfile, hopen]
    split <;> split <;> split <;> omega
  obtain ⟨dialog, hdialog, -⟩ := System.readDialog_fits (K := Codecs.sample)
    (w := System.watching) (System.asked_openName 0) hsize
  exact unsound_typedAhead hdialog (h Codecs.sample (typedAhead _) _ List.prefix_rfl)

/-! ## Where the keys come from -/

/-- What was typed and is not read, and the keys that answered. -/
def presses (w : Watch) : List Press := w.typed ++ w.answers.filterMap (·.press)

/-- Reading from the terminal. -/
theorem presses_subset {typed : List Press} (htyped : typed ⊆ w.typed) (hty : w'.typed = typed)
    (hanswers : w'.answers = w.answers) : w'.presses ⊆ w.presses := by
  rw [presses, presses, hty, hanswers]
  exact List.append_subset.mpr ⟨List.subset_append_of_subset_left _ htyped,
    List.subset_append_right _ _⟩

theorem presses_pollKeyboard (line : String) (parsed : Nat) (w : Watch) :
    (w.pollKeyboard line parsed).2.presses ⊆ w.presses := by
  unfold pollKeyboard
  split
  · exact List.Subset.refl _
  · next press typed htyped =>
      have htail : typed ⊆ w.typed := by
        rw [htyped]
        exact List.subset_cons_self _ _
      split
      · exact presses_subset htail rfl rfl
      · split
        · exact presses_subset htail rfl rfl
        · exact presses_subset (List.Subset.trans (List.take_subset _ _) htail) rfl rfl
        · exact presses_subset htail rfl rfl

theorem presses_answerFront (press : Press) (choice : UserChoice) :
    (w.answerFront press choice).presses ⊆ press :: w.presses := by
  unfold answerFront
  split
  · exact List.subset_cons_self _ _
  · intro p hp
    cases choice <;>
      simp [presses, respond, quitAnswer, Function.comp_def] at hp ⊢ <;>
      grind

theorem presses_turn (line : String) (parsed : Nat) :
    (w.turn K line parsed).presses ⊆ w.presses := by
  unfold turn
  split
  · split
    · unfold toTerminal
      split
      · exact List.Subset.refl _
      · split <;> exact List.Subset.refl _
    · unfold receive
      split
      · exact List.Subset.refl _
      · simp [presses]
  · unfold pollIdle
    split
    · exact List.Subset.refl _
    · next press typed htyped =>
        have htail : typed ⊆ w.typed := by
          rw [htyped]
          exact List.subset_cons_self _ _
        split <;> exact presses_subset htail rfl rfl
  · have hpoll := presses_pollKeyboard line parsed { w with phase := .receiving }
    obtain ⟨-, -, hpress⟩ := pollKeyboard_cases line parsed { w with phase := .receiving }
    unfold ask
    split
    · next w' hnone =>
        rw [hnone] at hpoll
        exact hpoll
    · next press choice w' hsome =>
        rw [hsome] at hpoll hpress
        have hmem : press ∈ w.presses :=
          List.mem_append_left _ (List.mem_of_head? (hpress press choice rfl).1)
        intro p hp
        rcases List.mem_cons.mp (presses_answerFront press choice hp) with rfl | hp
        · exact hmem
        · exact hpoll hp
  · exact List.Subset.refl _

theorem presses_step (e : Event) {press : Press} (h : press ∈ (w.step K e).presses) :
    press ∈ w.presses ∨ ∃ event, e = .typed event ∧ press = ⟨event, w.onScreen⟩ := by
  cases e with
  | connect arriving => exact Or.inl h
  | timeOut id room => exact Or.inl h
  | turn line parsed => exact Or.inl (presses_turn line parsed h)
  | typed event =>
      simp only [step, presses, List.append_assoc, List.mem_append, List.mem_singleton] at h
      rcases h with h | rfl | h
      · exact Or.inl (List.mem_append_left _ h)
      · exact Or.inr ⟨event, rfl, rfl⟩
      · exact Or.inl (List.mem_append_right _ h)
  | keyboardFails call e =>
      unfold step at h
      dsimp only at h
      split at h <;> exact Or.inl h

/-- A key of a run was typed in it, and what it is said to have seen was on the screen then. -/
theorem typed_of_mem_presses (events : List Event) {press : Press}
    (h : press ∈ (Run.after (step K) new events).presses) :
    ∃ past rest : List Event, events = past ++ .typed press.event :: rest ∧
      onScreen (Run.after (step K) new past) = press.saw := by
  induction events using List.reverseRecOn with
  | nil => cases h
  | append_singleton events e ih =>
      rw [Run.after_append] at h
      rcases presses_step e h with hold | ⟨event, rfl, rfl⟩
      · obtain ⟨past, rest, rfl, hsaw⟩ := ih hold
        exact ⟨past, rest ++ [e], by simp, hsaw⟩
      · exact ⟨events, [], rfl, rfl⟩

end Watch

end Cli

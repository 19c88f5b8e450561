/-
# `Cognos.Cli.ApprovalWatch` — the loop of `cognos approval watch`

Connections wait in a channel, dialogs in a queue, and what is typed in the terminal's
buffer; a turn of the loop takes in the connections, shows the front of the queue and reads
one thing from the terminal.  Other steps come in between: HAL connects, HAL's side of a
connection goes away, something is typed.  A connection is known by its number.

Two things are kept that the program does not have: with a key, the dialog that was on the
screen when it was pressed, and every answer that was tried, with the stream it was tried on.

    written_writeFrame   what of a frame reaches a stream
    written_eq_iff       and when it is the whole of it
    approval_mapKey      the keys that approve
-/
import Mathlib
import Cognos.Lib.FloatText
import Cognos.Lib.Run
import Cognos.Ipc.ApprovalUi

namespace Cli

open Ipc

/-! ## Streams -/

/-- A connection, as the side that answers has it. -/
structure UiStream where
  id : Nat
  written : List UInt8
  /-- How much HAL's side takes before it goes away; nothing is said while it is there. -/
  room : Option Nat
  deriving DecidableEq

inductive WriteError
  | payloadTooLarge
  | brokenPipe
  deriving DecidableEq, Repr

namespace UiStream

/-- `stream.write_all(bytes)`. -/
def writeAll (s : UiStream) (bytes : List UInt8) : UiStream × Except WriteError Unit :=
  match s.room with
  | none => ({ s with written := s.written ++ bytes }, .ok ())
  | some room =>
      if bytes.length ≤ room then
        ({ s with written := s.written ++ bytes, room := some (room - bytes.length) }, .ok ())
      else ({ s with written := s.written ++ bytes.take room, room := some 0 }, .error .brokenPipe)

/-- `write_frame`: the length, and if that goes through the payload. -/
def writeFrame (s : UiStream) (payload : List UInt8) : UiStream × Except WriteError Unit :=
  if maxUiFrameBytes < payload.length then (s, .error .payloadTooLarge)
  else
    match s.writeAll (Frame.beBytes payload.length) with
    | (s, .error e) => (s, .error e)
    | (s, .ok ()) => s.writeAll payload

/-- `write_dialog_response`. -/
def writeDialogResponse (s : UiStream) (r : UiDialogResponse) :
    UiStream × Except WriteError Unit :=
  s.writeFrame r.json.toVec

/-- HAL's side goes away, `room` bytes on; it does so once. -/
def timeOut (s : UiStream) (room : Nat) : UiStream := { s with room := some (s.room.getD room) }

/-- A frame of the payload goes through. -/
def Takes (s : UiStream) (payload : List UInt8) : Prop :=
  payload.length ≤ maxUiFrameBytes ∧ ∀ room ∈ s.room, (Frame.send payload).length ≤ room

/-- What of a frame reaches the stream. -/
def reaching (s : UiStream) (payload : List UInt8) : List UInt8 :=
  if maxUiFrameBytes < payload.length then []
  else
    match s.room with
    | none => Frame.send payload
    | some room => (Frame.send payload).take room

theorem id_writeAll (s : UiStream) (bytes : List UInt8) : (s.writeAll bytes).1.id = s.id := by
  unfold writeAll
  split
  · rfl
  · split <;> rfl

theorem id_writeFrame (s : UiStream) (payload : List UInt8) :
    (s.writeFrame payload).1.id = s.id := by
  unfold writeFrame
  split
  · rfl
  · have hlen := id_writeAll s (Frame.beBytes payload.length)
    split
    · next heq => rw [heq] at hlen; exact hlen
    · next heq =>
        rw [heq] at hlen
        rw [id_writeAll]
        exact hlen

@[simp] theorem id_writeDialogResponse (s : UiStream) (r : UiDialogResponse) :
    (s.writeDialogResponse r).1.id = s.id := by
  rw [writeDialogResponse, id_writeFrame]

theorem written_writeFrame (s : UiStream) (payload : List UInt8) :
    (s.writeFrame payload).1.written = s.written ++ s.reaching payload := by
  unfold writeFrame reaching
  by_cases hlong : maxUiFrameBytes < payload.length
  · rw [if_pos hlong, if_pos hlong, List.append_nil]
  · rw [if_neg hlong, if_neg hlong]
    cases hroom : s.room with
    | none => simp [writeAll, hroom, Frame.send]
    | some room =>
        by_cases hlen : (Frame.beBytes payload.length).length ≤ room
        · by_cases hpay : payload.length ≤ room - (Frame.beBytes payload.length).length
          · simp [writeAll, hroom, hlen, hpay, Frame.send, List.take_append,
              List.take_of_length_le]
          · simp [writeAll, hroom, hlen, hpay, Frame.send, List.take_append,
              List.take_of_length_le]
        · have hnone : room - (Frame.beBytes payload.length).length = 0 := by omega
          simp [writeAll, hroom, hlen, Frame.send, List.take_append, hnone]

theorem reaching_prefix (s : UiStream) (payload : List UInt8) :
    s.reaching payload <+: Frame.send payload := by
  unfold reaching
  split
  · exact List.nil_prefix
  · split
    · exact List.prefix_rfl
    · exact List.take_prefix _ _

theorem length_send_pos (payload : List UInt8) : 0 < (Frame.send payload).length := by
  simp [Frame.send, Frame.beBytes]

theorem reaching_eq_iff (s : UiStream) (payload : List UInt8) :
    s.reaching payload = Frame.send payload ↔ s.Takes payload := by
  unfold reaching Takes
  by_cases hlong : maxUiFrameBytes < payload.length
  · rw [if_pos hlong]
    refine iff_of_false ?_ fun h => absurd h.1 (Nat.not_le.mpr hlong)
    intro h
    have := length_send_pos payload
    rw [← h] at this
    exact absurd this (Nat.lt_irrefl 0)
  · rw [if_neg hlong]
    have hle := Nat.not_lt.mp hlong
    cases s.room with
    | none => simp [hle]
    | some room => simp [hle, List.take_eq_self_iff]

/-- On a stream with nothing on it, a frame is there in full exactly when it goes through. -/
theorem written_eq_iff {s : UiStream} (hfresh : s.written = []) (r : UiDialogResponse) :
    (s.writeDialogResponse r).1.written = Frame.send r.json.toVec ↔ s.Takes r.json.toVec := by
  rw [writeDialogResponse, written_writeFrame, hfresh, List.nil_append, reaching_eq_iff]

theorem written_prefix {s : UiStream} (hfresh : s.written = []) (r : UiDialogResponse) :
    (s.writeDialogResponse r).1.written <+: Frame.send r.json.toVec := by
  rw [writeDialogResponse, written_writeFrame, hfresh, List.nil_append]
  exact reaching_prefix s _

end UiStream

/-! ## The keyboard -/

inductive KeyCode
  | char (c : Char)
  | esc
  | other
  deriving DecidableEq, Repr

structure KeyEvent where
  code : KeyCode
  /-- `modifiers.contains(CONTROL)`. -/
  control : Bool
  deriving DecidableEq, Repr

/-- What comes from the terminal. -/
inductive TermEvent
  | key (key : KeyEvent)
  /-- A resize, the mouse, a paste. -/
  | other
  deriving DecidableEq, Repr

inductive UserChoice
  | allow
  | deny
  | allowWithNotice (notice : String)
  | quit
  deriving DecidableEq

/-- `map_key`; `line` is what `read_line` gives if a notice is asked for. -/
def mapKey (line : String) (key : KeyEvent) : Option UserChoice :=
  if key.control then none
  else
    match key.code with
    | .char c =>
        if c = 'a' ∨ c = 'A' then some .allow
        else if c = 'd' ∨ c = 'D' then some .deny
        else if c = 'n' ∨ c = 'N' then some (.allowWithNotice (Text.trim line))
        else if c = 'q' ∨ c = 'Q' then some .quit
        else none
    | .esc => some .deny
    | .other => none

/-- The answer of a choice that approves. -/
def UserChoice.approval : UserChoice → Option UiDialogResponse
  | .allow => some ⟨true, none⟩
  | .allowWithNotice notice => some ⟨true, some notice⟩
  | .deny => none
  | .quit => none

/-- The keys that approve. -/
def KeyEvent.Allows (key : KeyEvent) : Prop :=
  key.control = false ∧ ∃ c, key.code = .char c ∧ (c = 'a' ∨ c = 'A' ∨ c = 'n' ∨ c = 'N')

theorem approval_mapKey {line : String} {key : KeyEvent} {choice : UserChoice}
    {r : UiDialogResponse} (h : mapKey line key = some choice) (hr : choice.approval = some r) :
    key.Allows ∧ r.approved = true := by
  unfold mapKey at h
  split at h
  · cases h
  · next hcontrol =>
      have hplain : key.control = false := Bool.eq_false_iff.mpr hcontrol
      split at h
      · next c hcode =>
          split_ifs at h with ha hd hn hq
          · cases h
            cases hr
            refine ⟨⟨hplain, c, hcode, ?_⟩, rfl⟩
            exact ha.elim Or.inl fun hA => Or.inr (Or.inl hA)
          · cases h
            cases hr
          · cases h
            cases hr
            exact ⟨⟨hplain, c, hcode, Or.inr (Or.inr hn)⟩, rfl⟩
          · cases h
            cases hr
      · cases h
        cases hr
      · cases h

/-! ## What is printed -/

/-- What the loop prints. -/
inductive Said
  | queued (dialog : UiDialogRequest)
  | banner (id : Nat) (dialog : UiDialogRequest) (queuedBehind : Nat)
  | noticeAsked
  | answered (id : Nat) (label : String) (dialog : UiDialogRequest) (notice : Option String)
  | stopped (pending : Bool)

/-- `{:.2}` of the score. -/
def riskText (dialog : UiDialogRequest) : String :=
  FloatText.fixed2 (FloatText.widen dialog.halScore)

def Said.text : Said → String
  | .queued d => "  + queued [" ++ d.shortId ++ "] " ++ d.levelLabel ++ " " ++ d.agent ++ " → " ++
      d.target ++ "\n"
  | .banner _ d queuedBehind => "\n── HAL approval [" ++ d.shortId ++ "] " ++ d.levelLabel ++
      " ──\n" ++ "  action:  " ++ d.action ++ "\n" ++ "  target:  " ++ d.target ++ "\n" ++
      "  agent:   " ++ d.agent ++ "\n" ++ "  risk:    " ++ riskText d ++ "\n" ++
      (if d.isAiGenerated then "  AI-generated: yes\n" else "") ++
      (if 0 < queuedBehind then "  (" ++ toString queuedBehind ++ " more in queue)\n" else "") ++
      "  [a]llow  [d]eny  [n]otice  [q]uit > "
  | .noticeAsked => "\nNotice text: "
  | .answered _ label d notice => "→ " ++ label ++ " [" ++ d.shortId ++ "] " ++ d.levelLabel ++
      " " ++ d.agent ++ " on " ++ d.target ++ " (risk=" ++ riskText d ++ ")\n" ++
      (match notice with
        | some note => "  notice: " ++ note ++ "\n"
        | none => "")
  | .stopped true => "\nwatch stopped.\n"
  | .stopped false => "\nwatch stopped (no pending requests).\n"

/-- It says that the dialog of the connection was allowed. -/
def Said.Allows (id : Nat) : Said → Prop
  | .answered about label _ _ => about = id ∧ ∃ rest, label = "ALLOWED" ++ rest
  | _ => False

/-- It is the banner of the connection's dialog. -/
def Said.isBanner (id : Nat) : Said → Bool
  | .banner about _ _ => about == id
  | _ => false

/-! ## The loop -/

/-- A connection in the channel, with what HAL sends on it. -/
structure Connection where
  stream : UiStream
  arriving : List UInt8

structure PendingApproval where
  stream : UiStream
  dialog : UiDialogRequest

/-- Something typed, and the connection whose dialog was on the screen. -/
structure Press where
  event : TermEvent
  saw : Option Nat

/-- An answer that was tried: the stream after it, and the key it is due to. -/
structure Answer where
  stream : UiStream
  response : UiDialogResponse
  press : Option Press

/-- Where the loop is. -/
inductive Phase
  /-- Taking in connections. -/
  | receiving
  /-- At the terminal, with no dialog. -/
  | idle
  /-- At the terminal, with a dialog shown. -/
  | asking
  | ended (result : Except String Unit)

structure Watch where
  connections : List Connection
  queue : List PendingApproval
  bannerShown : Bool
  phase : Phase
  typed : List Press
  said : List Said
  answers : List Answer
  /-- How many connections there were. -/
  accepted : Nat

namespace Watch

def new : Watch := ⟨[], [], false, .receiving, [], [], [], 0⟩

/-- The connection at the front of the queue, once its banner has been printed. -/
def onScreen (w : Watch) : Option Nat :=
  w.queue.head?.bind fun p =>
    if w.said.any (·.isBanner p.stream.id) then some p.stream.id else none

/-- `read_dialog` on a connection, and what follows. -/
def receive {Time : Type} (K : Codecs Time) (c : Connection) (w : Watch) : Watch :=
  match readDialog K c.arriving with
  | .ok (dialog, _) =>
      { w with
        said := if w.queue.isEmpty then w.said else w.said ++ [.queued dialog]
        queue := w.queue ++ [⟨c.stream, dialog⟩]
        bannerShown := false }
  | .error _ =>
      let response := ⟨false, some "malformed dialog"⟩
      { w with answers := w.answers ++
          [⟨(c.stream.writeDialogResponse response).1, response, none⟩] }

/-- With no connection left: to the terminal, with the front of the queue shown. -/
def toTerminal (w : Watch) : Watch :=
  match w.queue with
  | [] => { w with bannerShown := false, phase := .idle }
  | front :: rest =>
      if w.bannerShown then { w with phase := .asking }
      else { w with
             said := w.said ++ [.banner front.stream.id front.dialog rest.length]
             bannerShown := true
             phase := .asking }

/-- The terminal with no dialog: `q` stops, anything else is dropped. -/
def pollIdle (w : Watch) : Watch :=
  match w.typed with
  | [] => { w with phase := .receiving }
  | press :: typed =>
      match press.event with
      | .key ⟨.char 'q', _⟩ =>
          { w with typed := typed, said := w.said ++ [.stopped false], phase := .ended (.ok ()) }
      | _ => { w with typed := typed, phase := .receiving }

/-- `poll_keyboard`.  Of what was typed the terminal has `parsed` events when a notice is asked
for; what is behind them goes into the line. -/
def pollKeyboard (line : String) (parsed : Nat) (w : Watch) :
    Option (Press × UserChoice) × Watch :=
  match w.typed with
  | [] => (none, w)
  | press :: typed =>
      match press.event with
      | .other => (none, { w with typed := typed })
      | .key key =>
          match mapKey line key with
          | none => (none, { w with typed := typed })
          | some (.allowWithNotice notice) =>
              (some (press, .allowWithNotice notice),
                { w with typed := typed.take parsed, said := w.said ++ [.noticeAsked] })
          | some choice => (some (press, choice), { w with typed := typed })

/-- `respond`. -/
def respond (w : Watch) (pending : PendingApproval) (response : UiDialogResponse)
    (label : String) (press : Press) : Watch :=
  { w with
    answers := w.answers ++
      [⟨(pending.stream.writeDialogResponse response).1, response, some press⟩]
    said := w.said ++ [.answered pending.stream.id label pending.dialog response.notice] }

/-- The answer of a watch that is quit. -/
def quitAnswer (press : Press) (pending : PendingApproval) : Answer :=
  let response := ⟨false, some "watch quit"⟩
  ⟨(pending.stream.writeDialogResponse response).1, response, some press⟩

/-- A choice is the answer for the front of the queue. -/
def answerFront (w : Watch) (press : Press) (choice : UserChoice) : Watch :=
  match w.queue with
  | [] => w
  | pending :: queue =>
      let w := { w with queue := queue, bannerShown := false }
      match choice with
      | .quit =>
          { w with
            answers := w.answers ++ (pending :: queue).map (quitAnswer press)
            queue := []
            said := w.said ++ [.stopped true]
            phase := .ended (.ok ()) }
      | .allow => w.respond pending ⟨true, none⟩ "ALLOWED" press
      | .deny => w.respond pending ⟨false, none⟩ "DENIED" press
      | .allowWithNotice notice =>
          w.respond pending ⟨true, some notice⟩ ("ALLOWED (notice: " ++ notice ++ ")") press

/-- The terminal with a dialog. -/
def ask (line : String) (parsed : Nat) (w : Watch) : Watch :=
  match pollKeyboard line parsed { w with phase := .receiving } with
  | (none, w) => w
  | (some (press, choice), w) => w.answerFront press choice

/-- The loop goes on from where it is. -/
def turn {Time : Type} (K : Codecs Time) (line : String) (parsed : Nat) (w : Watch) : Watch :=
  match w.phase with
  | .receiving =>
      match w.connections with
      | [] => w.toTerminal
      | c :: connections => { w with connections := connections }.receive K c
  | .idle => w.pollIdle
  | .asking => w.ask line parsed
  | .ended _ => w

/-- What can happen. -/
inductive Event
  /-- HAL connects and sends this. -/
  | connect (arriving : List UInt8)
  /-- HAL's side of a connection goes away, `room` bytes on. -/
  | timeOut (id room : Nat)
  | typed (event : TermEvent)
  /-- The loop goes on; `line` and `parsed` are for a notice. -/
  | turn (line : String) (parsed : Nat)
  /-- The terminal cannot be polled, or not be read. -/
  | keyboardFails (call e : String)

def timeOut (w : Watch) (id room : Nat) : Watch :=
  let upon (s : UiStream) := if s.id = id then s.timeOut room else s
  { w with
    connections := w.connections.map fun c => { c with stream := upon c.stream }
    queue := w.queue.map fun p => { p with stream := upon p.stream } }

def step {Time : Type} (K : Codecs Time) (w : Watch) : Event → Watch
  | .connect arriving =>
      { w with
        connections := w.connections ++ [⟨⟨w.accepted, [], none⟩, arriving⟩]
        accepted := w.accepted + 1 }
  | .timeOut id room => w.timeOut id room
  | .typed event => { w with typed := w.typed ++ [⟨event, w.onScreen⟩] }
  | .turn line parsed => w.turn K line parsed
  | .keyboardFails call e =>
      match w.phase with
      | .idle => { w with phase := .ended (.error ("keyboard " ++ call ++ ": " ++ e)) }
      | .asking => { w with phase := .ended (.error ("keyboard " ++ call ++ ": " ++ e)) }
      | _ => w

end Watch

end Cli

/-
# `Cognos.Lib.Broadcast` — a bounded channel to many receivers

`tokio::sync::broadcast`: a value that is sent goes to everybody who has subscribed, and to
nobody when there is none.  The channel holds the last `capacity` values; a receiver that is
further behind is told how many it lost and goes on with the oldest that is left.  What was sent
is kept beside the channel.

    Sound                  what a receiver got, of what was sent since it subscribed
    sound_send, sound_recv
                           the operations keep it
    Sound.got_prefix       it is all of that, from the first on, when nothing was lost
    Sound.lost_eq_zero     and nothing is while no more was sent than the channel holds
-/
import Mathlib.Data.List.AList
import Mathlib.Data.List.Infix

namespace Broadcast

variable {α : Type}

/-- A receiver: what was sent and what was taken before it subscribed, the position it reads
next, what it got, and how many values it was told it lost. -/
structure Receiver (α : Type) where
  since : Nat
  start : Nat
  next : Nat
  got : List α
  lost : Nat

/-- A channel: all that was sent, what of it was taken because somebody had subscribed, by
position, and who has. -/
structure Channel (α : Type) where
  sent : List α
  taken : List α
  receivers : AList fun _ : Nat => Receiver α

namespace Channel

def new : Channel α := ⟨[], [], ∅⟩

/-- `tx.send(x)` -/
def send (c : Channel α) (x : α) : Channel α :=
  { c with
    sent := c.sent ++ [x]
    taken := if c.receivers.keys = [] then c.taken else c.taken ++ [x] }

def sendAll (c : Channel α) (xs : List α) : Channel α := xs.foldl send c

/-- `tx.subscribe()` -/
def subscribe (c : Channel α) (id : Nat) : Channel α :=
  if id ∈ c.receivers then c
  else { c with
    receivers := c.receivers.insert id ⟨c.sent.length, c.taken.length, c.taken.length, [], 0⟩ }

/-- A receiver is dropped. -/
def leave (c : Channel α) (id : Nat) : Channel α := { c with receivers := c.receivers.erase id }

end Channel

/-- `rx.recv()`, as far as it goes without waiting. -/
def Receiver.recv (capacity : Nat) (taken : List α) (r : Receiver α) : Receiver α :=
  let oldest := taken.length - capacity
  if r.next < oldest then { r with next := oldest, lost := r.lost + (oldest - r.next) }
  else match taken[r.next]? with
    | some x => { r with next := r.next + 1, got := r.got ++ [x] }
    | none => r

def Channel.recv (capacity : Nat) (c : Channel α) (id : Nat) : Channel α :=
  match c.receivers.lookup id with
  | some r => { c with receivers := c.receivers.insert id (r.recv capacity c.taken) }
  | none => c

@[simp] theorem Channel.sent_recv (capacity : Nat) (c : Channel α) (id : Nat) :
    (c.recv capacity id).sent = c.sent := by
  rw [recv]
  split <;> rfl

@[simp] theorem Channel.sent_subscribe (c : Channel α) (id : Nat) :
    (c.subscribe id).sent = c.sent := by
  rw [subscribe]
  split_ifs <;> rfl

@[simp] theorem Channel.sent_sendAll (c : Channel α) (xs : List α) :
    (c.sendAll xs).sent = c.sent ++ xs := by
  induction xs generalizing c with
  | nil => exact (List.append_nil _).symm
  | cons x xs ih =>
      have hrest := ih (c.send x)
      rw [sendAll, List.foldl_cons, ← sendAll, hrest]
      exact List.append_assoc c.sent [x] xs

/-! ## What a receiver got -/

/-- What was taken since the receiver subscribed is what was sent since; what it got is part of
that, up to where it reads, and what is missing it was told; and it lost nothing unless there was
more than the channel holds. -/
structure Receiver.Sound (capacity : Nat) (c : Channel α) (r : Receiver α) : Prop where
  taken : c.taken.drop r.start = c.sent.drop r.since
  since_le : r.since ≤ c.sent.length
  le_next : r.start ≤ r.next
  next_le : r.next ≤ c.taken.length
  got : r.got.Sublist ((c.taken.take r.next).drop r.start)
  count : r.got.length + r.lost = r.next - r.start
  room : r.lost = 0 ∨ r.start + capacity < c.taken.length

/-- All receivers are. -/
def Channel.Sound (capacity : Nat) (c : Channel α) : Prop :=
  ∀ id r, c.receivers.lookup id = some r → r.Sound capacity c

namespace Receiver

variable {capacity : Nat} {c : Channel α} {r : Receiver α}

theorem Sound.got_sublist (h : r.Sound capacity c) : r.got.Sublist (c.sent.drop r.since) := by
  rw [← h.taken]
  exact h.got.trans ((List.take_sublist r.next c.taken).drop r.start)

/-- Where nothing was lost, a receiver got all there was up to where it reads. -/
theorem Sound.got_prefix (h : r.Sound capacity c) (hlost : r.lost = 0) :
    r.got <+: c.sent.drop r.since := by
  have hlen : r.got.length = ((c.taken.take r.next).drop r.start).length := by
    have hcount := h.count
    have hle := h.next_le
    rw [List.length_drop, List.length_take]
    omega
  rw [h.got.eq_of_length hlen, ← h.taken]
  exact (List.take_prefix r.next c.taken).drop r.start

/-- Nothing is lost while no more was sent than the channel holds. -/
theorem Sound.lost_eq_zero (h : r.Sound capacity c)
    (hfits : c.sent.length ≤ r.since + capacity) : r.lost = 0 := by
  rcases h.room with hlost | hmore
  · exact hlost
  · have hlen := congrArg List.length h.taken
    rw [List.length_drop, List.length_drop] at hlen
    omega

/-- Who else has subscribed does not matter. -/
theorem Sound.of_same (h : r.Sound capacity c) {c' : Channel α} (hsent : c'.sent = c.sent)
    (htaken : c'.taken = c.taken) : r.Sound capacity c' := by
  refine ⟨?_, ?_, h.le_next, ?_, ?_, h.count, ?_⟩
  · rw [hsent, htaken, h.taken]
  · exact hsent ▸ h.since_le
  · exact htaken ▸ h.next_le
  · exact htaken ▸ h.got
  · exact htaken ▸ h.room

/-- A receiver is as far as it was when another value is taken. -/
theorem Sound.send (h : r.Sound capacity c) (x : α) (hsomebody : c.receivers.keys ≠ []) :
    r.Sound capacity (c.send x) := by
  have htaken : (c.send x).taken = c.taken ++ [x] := if_neg hsomebody
  have hsent : (c.send x).sent = c.sent ++ [x] := rfl
  have hstart : r.start ≤ c.taken.length := h.le_next.trans h.next_le
  have hroom := h.room
  refine ⟨?_, ?_, h.le_next, ?_, ?_, h.count, ?_⟩
  · rw [htaken, hsent, List.drop_append_of_le_length hstart,
      List.drop_append_of_le_length h.since_le, h.taken]
  · rw [hsent, List.length_append]
    exact h.since_le.trans (Nat.le_add_right _ _)
  · rw [htaken, List.length_append]
    exact h.next_le.trans (Nat.le_add_right _ _)
  · rw [htaken, List.take_append_of_le_length h.next_le]
    exact h.got
  · rw [htaken, List.length_append]
    omega

/-- The next value is got, or those that are gone are counted. -/
theorem Sound.recv (h : r.Sound capacity c) : (r.recv capacity c.taken).Sound capacity c := by
  have hcount := h.count
  have hnext := h.le_next
  rw [Receiver.recv]
  split_ifs with hbehind
  · refine ⟨h.taken, h.since_le, ?_, Nat.sub_le _ _, ?_, ?_, Or.inr ?_⟩
    · show r.start ≤ c.taken.length - capacity
      omega
    · exact h.got.trans ((List.take_prefix_take_left hbehind.le).drop r.start).sublist
    · show r.got.length + (r.lost + (c.taken.length - capacity - r.next)) =
        c.taken.length - capacity - r.start
      omega
    · show r.start + capacity < c.taken.length
      omega
  · split
    · next x hx =>
        obtain ⟨hlt, rfl⟩ := List.getElem?_eq_some_iff.mp hx
        refine ⟨h.taken, h.since_le, ?_, hlt, ?_, ?_, h.room⟩
        · exact hnext.trans (Nat.le_succ _)
        · have hstart : r.start ≤ (c.taken.take r.next).length := by
            rw [List.length_take]
            omega
          show (r.got ++ [c.taken[r.next]]).Sublist ((c.taken.take (r.next + 1)).drop r.start)
          rw [List.take_succ_eq_append_getElem hlt, List.drop_append_of_le_length hstart]
          exact h.got.append (List.Sublist.refl _)
        · show (r.got ++ [c.taken[r.next]]).length + r.lost = r.next + 1 - r.start
          rw [List.length_append, List.length_singleton]
          omega
    · exact h

end Receiver

namespace Channel

variable {capacity : Nat} {c : Channel α}

theorem sound_new : (new : Channel α).Sound capacity := fun _ _ hnone => by cases hnone

theorem sound_send (h : c.Sound capacity) (x : α) : (c.send x).Sound capacity := by
  intro id r hr
  refine (h id r hr).send x fun hnobody => ?_
  have hmem : id ∈ c.receivers := AList.lookup_isSome.mp (Option.isSome_iff_exists.mpr ⟨r, hr⟩)
  have hkey := AList.mem_keys.mp hmem
  rw [hnobody] at hkey
  exact List.not_mem_nil hkey

theorem sound_sendAll (h : c.Sound capacity) (xs : List α) : (c.sendAll xs).Sound capacity := by
  induction xs generalizing c with
  | nil => exact h
  | cons x xs ih => exact ih (sound_send h x)

theorem sound_subscribe (h : c.Sound capacity) (id : Nat) : (c.subscribe id).Sound capacity := by
  rw [subscribe]
  split_ifs
  · exact h
  · intro other r hr
    by_cases hother : other = id
    · subst hother
      rw [AList.lookup_insert] at hr
      obtain rfl := Option.some.inj hr
      refine ⟨?_, le_rfl, le_rfl, le_rfl, List.nil_sublist _, ?_, Or.inl rfl⟩
      · exact (List.drop_length).trans (List.drop_length).symm
      · exact (Nat.sub_self _).symm
    · rw [AList.lookup_insert_ne hother] at hr
      exact (h other r hr).of_same rfl rfl

theorem sound_leave (h : c.Sound capacity) (id : Nat) : (c.leave id).Sound capacity := by
  intro other r hr
  have hne : other ≠ id := by
    rintro rfl
    rw [leave, AList.lookup_erase] at hr
    cases hr
  rw [leave, AList.lookup_erase_ne hne] at hr
  exact (h other r hr).of_same rfl rfl

theorem sound_recv (h : c.Sound capacity) (id : Nat) : (c.recv capacity id).Sound capacity := by
  rw [recv]
  cases hid : c.receivers.lookup id with
  | none => exact h
  | some held =>
      intro other r hr
      have hsound : r.Sound capacity c := by
        by_cases hother : other = id
        · subst hother
          rw [AList.lookup_insert] at hr
          obtain rfl := Option.some.inj hr
          exact (h other held hid).recv
        · rw [AList.lookup_insert_ne hother] at hr
          exact h other r hr
      exact hsound.of_same rfl rfl

end Channel

end Broadcast

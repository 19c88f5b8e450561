/-
# `Cognos.Mesh.StateSync` — whose value a mesh node has

`state_sync.rs`: each node has a map of CRDT values, writes to it with `push_local`, and merges
the maps of others into it.  A merge takes over the keys that the node does not have; of those it
has it only compares the kinds of the two values, and keeps its own.

    lookup_merge   a merge, at one key
    entry_run      what a run leaves at a key: what was written there last, or else what was
                   merged first
    clock_run      the counter of a node is the number of its writes
    own_or_theirs  in a mesh that sends its maps around: who wrote what a node has at a key
    unconverged    and how two nodes go on having different values
-/
import Mathlib
import Cognos.Lib.Json.Value
import Cognos.Lib.Run
import Cognos.Mesh.AgentTopology
import Cognos.Orchestrator.TaskGraph

namespace Mesh

open Json (Value)
open Orchestrator (HashOrder)

/-! ## Values -/

/-- One CRDT value; a timestamp is in nanoseconds. -/
inductive CrdtValue
  | lwwRegister (value : Value) (timestamp : Int)
  | gSet (items : List Value)
  | orSet (items tombstones : List Value)
  | pnCounter (p n : AList fun _ : NodeId => UInt64)

/-- `std::mem::discriminant`. -/
def CrdtValue.kind : CrdtValue → Nat
  | .lwwRegister _ _ => 0
  | .gSet _ => 1
  | .orSet _ _ => 2
  | .pnCounter _ _ => 3

/-- A map of keys to values. -/
structure CrdtMap where
  entries : AList fun _ : String => CrdtValue

def CrdtMap.new : CrdtMap := ⟨∅⟩

/-! ## A node -/

structure StateSync where
  localState : CrdtMap
  vectorClock : AList fun _ : NodeId => UInt64

namespace StateSync

def new : StateSync := ⟨.new, ∅⟩

/-- The entry of a remote map is taken over, found to be of another kind, or left alone. -/
def mergeEntry (entries : AList fun _ : String => CrdtValue) (key : String) (theirs : CrdtValue) :
    AList fun _ : String => CrdtValue :=
  match entries.lookup key with
  | none => entries.insert key theirs
  | some ours =>
      if ours.kind ≠ theirs.kind then entries  -- incompatible types
      else entries  -- compatible types, merging (stub)

/-- Merge a remote map into the local one. -/
def merge (s : StateSync) (other : CrdtMap) (walk : HashOrder String) : StateSync :=
  { s with localState := ⟨(walk.1 other.entries.keys).foldl (fun entries key =>
      match other.entries.lookup key with
      | some theirs => mergeEntry entries key theirs
      | none => entries) s.localState.entries⟩ }

/-- `saturating_add(1)`. -/
def saturatingSucc (n : UInt64) : UInt64 := UInt64.ofNat (min (n.toNat + 1) (2 ^ 64 - 1))

/-- Write a value locally and bump the counter of the node. -/
def pushLocal (s : StateSync) (key : String) (value : CrdtValue) : StateSync where
  localState := ⟨s.localState.entries.insert key value⟩
  vectorClock :=
    s.vectorClock.insert "local" (saturatingSucc ((s.vectorClock.lookup "local").getD 0))

def fetchState (s : StateSync) : CrdtMap := s.localState

inductive Call
  | push (key : String) (value : CrdtValue)
  | merge (other : CrdtMap) (walk : HashOrder String)

def step (s : StateSync) : Call → StateSync
  | .push key value => s.pushLocal key value
  | .merge other walk => s.merge other walk

/-! ## A merge -/

theorem mergeEntry_of_some {entries : AList fun _ : String => CrdtValue} {key : String}
    {ours : CrdtValue} (h : entries.lookup key = some ours) (theirs : CrdtValue) :
    mergeEntry entries key theirs = entries := by
  rw [mergeEntry, h]
  exact ite_self _

theorem lookup_mergeEntry (entries : AList fun _ : String => CrdtValue) (key key' : String)
    (theirs : CrdtValue) : (mergeEntry entries key theirs).lookup key' =
      (entries.lookup key').or (if key' = key then some theirs else none) := by
  cases h : entries.lookup key with
  | some ours =>
      rw [mergeEntry_of_some h]
      split_ifs with hkey
      · rw [hkey, h, Option.some_or]
      · rw [Option.or_none]
  | none =>
      rw [mergeEntry, h]
      split_ifs with hkey
      · rw [hkey, h, Option.none_or, AList.lookup_insert]
      · rw [AList.lookup_insert_ne hkey, Option.or_none]

theorem lookup_foldl_mergeEntry (other : CrdtMap) (keys : List String)
    (entries : AList fun _ : String => CrdtValue) (key : String) :
    (keys.foldl (fun entries key =>
      match other.entries.lookup key with
      | some theirs => mergeEntry entries key theirs
      | none => entries) entries).lookup key =
      (entries.lookup key).or (if key ∈ keys then other.entries.lookup key else none) := by
  induction keys generalizing entries with
  | nil => exact (Option.or_none).symm
  | cons first keys ih =>
      have hfirst : AList.lookup key (match other.entries.lookup first with
          | some theirs => mergeEntry entries first theirs
          | none => entries) =
            (entries.lookup key).or (if key = first then other.entries.lookup first else none) := by
        cases other.entries.lookup first with
        | none => rw [ite_self, Option.or_none]
        | some theirs => exact lookup_mergeEntry entries first key theirs
      rw [List.foldl_cons, ih, hfirst, Option.or_assoc]
      congr 1
      by_cases hkey : key = first
      · subst hkey
        rw [if_pos rfl, if_pos List.mem_cons_self]
        split_ifs
        · exact Option.or_self
        · exact Option.or_none
      · rw [if_neg hkey, Option.none_or]
        exact if_congr (List.mem_cons.trans (or_iff_right hkey)).symm rfl rfl

/-- At a key a merge leaves what is there, and where nothing is takes over what they have. -/
theorem lookup_merge (s : StateSync) (other : CrdtMap) (walk : HashOrder String) (key : String) :
    (s.merge other walk).localState.entries.lookup key =
      (s.localState.entries.lookup key).or (other.entries.lookup key) := by
  refine (lookup_foldl_mergeEntry other _ _ key).trans ?_
  congr 1
  split_ifs with hkey
  · rfl
  · have hmem : key ∉ other.entries := fun h => hkey ((walk.2 _).mem_iff.mpr h)
    exact (AList.lookup_eq_none.mpr hmem).symm

/-! ## A run of one node -/

/-- What a call writes at a key. -/
def Call.pushed (key : String) : Call → Option CrdtValue
  | .push key' value => if key' = key then some value else none
  | .merge _ _ => none

/-- What the map that a call merges has at a key. -/
def Call.merged (key : String) : Call → Option CrdtValue
  | .push _ _ => none
  | .merge other _ => other.entries.lookup key

theorem lookup_step (s : StateSync) (call : Call) (key : String) :
    (s.step call).localState.entries.lookup key =
      (call.pushed key).or ((s.localState.entries.lookup key).or (call.merged key)) := by
  cases call with
  | push key' value =>
      show AList.lookup key (s.localState.entries.insert key' value) = _
      rw [Call.pushed, Call.merged, Option.or_none]
      split_ifs with hkey
      · rw [hkey, AList.lookup_insert, Option.some_or]
      · rw [AList.lookup_insert_ne (Ne.symm hkey), Option.none_or]
  | merge other walk =>
      exact lookup_merge s other walk key

/-- Whatever is merged and in which order: at a key a node has what was written there last, or
else, never written, what the first map had that was merged with that key. -/
theorem entry_run (calls : List Call) (key : String) :
    (Run.after step new calls).localState.entries.lookup key =
      ((calls.filterMap (Call.pushed key)).getLast?).or (calls.findSome? (Call.merged key)) := by
  induction calls using List.reverseRecOn with
  | nil => rfl
  | append_singleton calls call ih =>
      rw [Run.after_append, Run.after_cons, Run.after_nil, lookup_step, ih, List.filterMap_append,
        List.findSome?_append]
      cases hpushed : call.pushed key with
      | some value =>
          rw [Option.some_or]
          simp [hpushed]
      | none =>
          simp [hpushed, Option.or_assoc]

/-- The counter of the node, 0 before its first write. -/
def counter (s : StateSync) : UInt64 := (s.vectorClock.lookup "local").getD 0

def Call.writes : Call → Bool
  | .push _ _ => true
  | .merge _ _ => false

theorem toNat_saturatingSucc (n : UInt64) :
    (saturatingSucc n).toNat = min (n.toNat + 1) (2 ^ 64 - 1) := by
  have hlt : min (n.toNat + 1) (2 ^ 64 - 1) < UInt64.size :=
    lt_of_le_of_lt (Nat.min_le_right _ _) (by decide)
  exact UInt64.toNat_ofNat_of_lt hlt

theorem toNat_counter_step (s : StateSync) (call : Call) :
    (s.step call).counter.toNat =
      if call.writes then min (s.counter.toNat + 1) (2 ^ 64 - 1) else s.counter.toNat := by
  cases call with
  | push key value =>
      have hcounter : (s.pushLocal key value).counter = saturatingSucc s.counter := by
        simp [counter, pushLocal]
      exact (congrArg UInt64.toNat hcounter).trans (toNat_saturatingSucc s.counter)
  | merge other walk => rfl

/-- The counter is the number of writes, up to the width it has. -/
theorem clock_run (calls : List Call) :
    (Run.after step new calls).counter.toNat = min (calls.countP Call.writes) (2 ^ 64 - 1) := by
  induction calls using List.reverseRecOn with
  | nil =>
      rw [List.countP_nil, Nat.zero_min]
      rfl
  | append_singleton calls call ih =>
      rw [Run.after_append, Run.after_cons, Run.after_nil, toNat_counter_step, ih,
        List.countP_append, List.countP_singleton]
      split_ifs <;> omega

end StateSync

/-! ## A mesh

Nodes send out copies of their maps, which arrive whenever and wherever they do: late, twice, out
of order or never. -/

structure Network where
  nodes : NodeId → StateSync
  sent : List CrdtMap

namespace Network

def new : Network := ⟨fun _ => .new, []⟩

inductive Event
  | push (node : NodeId) (key : String) (value : CrdtValue)
  | send (node : NodeId)
  | deliver (node : NodeId) (index : Nat) (walk : HashOrder String)

def setNode (net : Network) (node : NodeId) (s : StateSync) : Network :=
  { net with nodes := Function.update net.nodes node s }

def step (net : Network) : Event → Network
  | .push node key value => net.setNode node ((net.nodes node).pushLocal key value)
  | .send node => { net with sent := net.sent ++ [(net.nodes node).fetchState] }
  | .deliver node index walk =>
      match net.sent[index]? with
      | none => net
      | some other => net.setNode node ((net.nodes node).merge other walk)

/-- What a node has at a key. -/
def entry (net : Network) (node : NodeId) (key : String) : Option CrdtValue :=
  (net.nodes node).localState.entries.lookup key

/-- What an event is that writes at a key of a node. -/
def Event.pushed (node : NodeId) (key : String) : Event → Option CrdtValue
  | .push node' key' value => if node' = node ∧ key' = key then some value else none
  | _ => none

/-- What a node wrote last at a key. -/
def own (node : NodeId) (key : String) (events : List Event) : Option CrdtValue :=
  (events.filterMap (Event.pushed node key)).getLast?

/-- Some node wrote the value at the key. -/
def Authored (events : List Event) (key : String) (value : CrdtValue) : Prop :=
  ∃ author, Event.push author key value ∈ events

theorem Authored.snoc {events : List Event} {key : String} {value : CrdtValue}
    (h : Authored events key value) (event : Event) : Authored (events ++ [event]) key value := by
  obtain ⟨author, hmem⟩ := h
  exact ⟨author, List.mem_append_left _ hmem⟩

theorem entry_setNode (net : Network) (node node' : NodeId) (s : StateSync) (key : String) :
    (net.setNode node s).entry node' key =
      if node' = node then s.localState.entries.lookup key else net.entry node' key := by
  show AList.lookup key (Function.update net.nodes node s node').localState.entries = _
  rw [Function.update_apply]
  split_ifs <;> rfl

/-- What a step can do to an entry: the node writes it, or it had none and takes over one that
was sent, or it stays. -/
theorem entry_step (net : Network) (event : Event) (node : NodeId) (key : String) :
    (∃ value, event.pushed node key = some value ∧
        (net.step event).entry node key = some value) ∨
      (event.pushed node key = none ∧ net.entry node key = none ∧
        ∃ other ∈ net.sent, (net.step event).entry node key = other.entries.lookup key) ∨
      (event.pushed node key = none ∧ (net.step event).entry node key = net.entry node key) := by
  cases event with
  | push node' key' value =>
      by_cases hhere : node' = node ∧ key' = key
      · obtain ⟨rfl, rfl⟩ := hhere
        refine Or.inl ⟨value, if_pos ⟨rfl, rfl⟩, ?_⟩
        rw [step, entry_setNode, if_pos rfl]
        exact AList.lookup_insert _
      · refine Or.inr (Or.inr ⟨if_neg hhere, ?_⟩)
        rw [step, entry_setNode]
        split_ifs with hnode
        · subst hnode
          exact AList.lookup_insert_ne fun hkey => hhere ⟨rfl, hkey.symm⟩
        · rfl
  | send node' =>
      exact Or.inr (Or.inr ⟨rfl, rfl⟩)
  | deliver node' index walk =>
      cases hother : net.sent[index]? with
      | none =>
          refine Or.inr (Or.inr ⟨rfl, ?_⟩)
          simp only [step, hother]
      | some other =>
          have hstep : (net.step (.deliver node' index walk)).entry node key =
              if node = node' then (net.entry node' key).or (other.entries.lookup key)
              else net.entry node key := by
            simp only [step, hother]
            rw [entry_setNode, StateSync.lookup_merge]
            rfl
          by_cases hnode : node = node'
          · subst hnode
            rw [if_pos rfl] at hstep
            cases hentry : net.entry node key with
            | none =>
                refine Or.inr (Or.inl ⟨rfl, rfl, other, List.mem_of_getElem? hother, ?_⟩)
                rw [hstep, hentry, Option.none_or]
            | some value =>
                refine Or.inr (Or.inr ⟨rfl, ?_⟩)
                rw [hstep, hentry, Option.some_or]
          · rw [if_neg hnode] at hstep
            exact Or.inr (Or.inr ⟨rfl, hstep⟩)

/-- What is sent is what some node has. -/
theorem mem_sent_step {net : Network} {event : Event} {other : CrdtMap}
    (h : other ∈ (net.step event).sent) :
    other ∈ net.sent ∨ ∃ node, other = (net.nodes node).localState := by
  cases event with
  | push node key value => exact Or.inl h
  | send node =>
      rcases List.mem_append.mp h with hold | hnew
      · exact Or.inl hold
      · exact Or.inr ⟨node, List.mem_singleton.mp hnew⟩
  | deliver node index walk =>
      have hsent : (net.step (.deliver node index walk)).sent = net.sent := by
        simp only [step]
        cases net.sent[index]? <;> rfl
      exact Or.inl (hsent ▸ h)

/-- Everything the nodes have and everything on its way was written by some node. -/
structure Accounted (events : List Event) (net : Network) : Prop where
  here : ∀ node key value, net.entry node key = some value → Authored events key value
  onTheWay : ∀ other ∈ net.sent, ∀ key value,
    other.entries.lookup key = some value → Authored events key value

theorem accounted_run (events : List Event) : Accounted events (Run.after step new events) := by
  induction events using List.reverseRecOn with
  | nil =>
      constructor
      · intro node key value h
        cases h
      · intro other h
        cases h
  | append_singleton events event ih =>
      rw [Run.after_append, Run.after_cons, Run.after_nil]
      generalize Run.after step new events = net at ih
      constructor
      · intro node key value h
        obtain ⟨value', hpushed, hentry⟩ | ⟨-, -, other, hsent, hentry⟩ | ⟨-, hentry⟩ :=
          entry_step net event node key
        · cases hentry.symm.trans h
          cases event with
          | push node' key' value' =>
              obtain ⟨⟨rfl, rfl⟩, hvalue⟩ := Option.ite_none_right_eq_some.mp hpushed
              cases hvalue
              exact ⟨node', List.mem_append_right _ List.mem_cons_self⟩
          | send node' => cases hpushed
          | deliver node' index walk => cases hpushed
        · exact (ih.onTheWay other hsent key value (hentry.symm.trans h)).snoc event
        · exact (ih.here node key value (hentry.symm.trans h)).snoc event
      · intro other hother key value h
        obtain hsent | ⟨node, rfl⟩ := mem_sent_step hother
        · exact (ih.onTheWay other hsent key value h).snoc event
        · exact (ih.here node key value h).snoc event

theorem own_snoc (node : NodeId) (key : String) (events : List Event) (event : Event) :
    own node key (events ++ [event]) = (event.pushed node key).or (own node key events) := by
  rw [own, List.filterMap_append]
  cases hpushed : event.pushed node key with
  | none => simp [hpushed, own]
  | some value => simp [hpushed]

/-- What a node wrote at a key stays there, whatever arrives. -/
theorem entry_of_own {events : List Event} {node : NodeId} {key : String} {value : CrdtValue}
    (h : own node key events = some value) :
    (Run.after step new events).entry node key = some value := by
  induction events using List.reverseRecOn generalizing value with
  | nil => cases h
  | append_singleton events event ih =>
      rw [own_snoc] at h
      rw [Run.after_append, Run.after_cons, Run.after_nil]
      obtain ⟨value', hpushed, hentry⟩ | ⟨hpushed, hnone, -⟩ | ⟨hpushed, hentry⟩ :=
        entry_step (Run.after step new events) event node key
      · rw [hpushed, Option.some_or] at h
        exact hentry.trans h
      · rw [hpushed, Option.none_or] at h
        cases hnone.symm.trans (ih h)
      · rw [hpushed, Option.none_or] at h
        exact hentry.trans (ih h)

/-- However the maps travel: a node that wrote at a key has what it wrote there last, and one
that did not has nothing or what another node wrote there. -/
theorem own_or_theirs (events : List Event) (node : NodeId) (key : String) :
    (Run.after step new events).entry node key = own node key events ∨
      own node key events = none ∧ ∃ author value, author ≠ node ∧
        Event.push author key value ∈ events ∧
        (Run.after step new events).entry node key = some value := by
  cases hown : own node key events with
  | some value => exact Or.inl (entry_of_own hown)
  | none =>
      cases hentry : (Run.after step new events).entry node key with
      | none => exact Or.inl rfl
      | some value =>
          obtain ⟨author, hmem⟩ := (accounted_run events).here node key value hentry
          refine Or.inr ⟨rfl, author, value, ?_, hmem, rfl⟩
          rintro rfl
          have hnil := List.getLast?_eq_none_iff.mp hown
          exact absurd (List.filterMap_eq_nil_iff.mp hnil _ hmem) (by simp [Event.pushed])

/-- Two nodes that wrote different values at a key go on having them, however long they send
each other their maps. -/
theorem unconverged {events : List Event} {a b : NodeId} {key : String}
    {ours theirs : CrdtValue} (ha : own a key events = some ours)
    (hb : own b key events = some theirs) (hne : ours ≠ theirs) {rest : List Event}
    (hrest : ∀ event ∈ rest, event.pushed a key = none ∧ event.pushed b key = none) :
    (Run.after step new (events ++ rest)).entry a key ≠
      (Run.after step new (events ++ rest)).entry b key := by
  have hkeep : ∀ node, (∀ event ∈ rest, event.pushed node key = none) →
      own node key (events ++ rest) = own node key events := by
    intro node hnode
    rw [own, own, List.filterMap_append, List.filterMap_eq_nil_iff.mpr hnode, List.append_nil]
  have ha' := entry_of_own ((hkeep a fun event h => (hrest event h).1).trans ha)
  have hb' := entry_of_own ((hkeep b fun event h => (hrest event h).2).trans hb)
  rw [ha', hb']
  exact fun h => hne (Option.some.inj h)

end Network

end Mesh

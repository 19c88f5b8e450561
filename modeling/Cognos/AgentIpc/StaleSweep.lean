/-
# `Cognos.AgentIpc.StaleSweep` — the sweep, lock by lock

`cleanup_stale` reads the clock, lists the stale agents under the read lock, and removes the
listed ids under the write lock.  Each is a step here, any number of sweeps are under way,
and registrations, heartbeats and the other calls come in between.  A build that checks its
arithmetic panics where a difference overflows; then the sweep is gone.

    stale_of_listed     what is on a list was stale by the clock the sweep read
    reads_stale         and still is, unless it was heard of since
    sweeps_safe         when no sweep removes an agent that is not stale
-/
import Mathlib
import Cognos.Lib.Run
import Cognos.AgentIpc.Registration
import Cognos.AgentIpc.TimestampWindow

namespace AgentIpc

/-! ## The machine -/

/-- `Utc::now().timestamp_millis()`; `Utc::now` panics before 1970. -/
structure UnixTime where
  millis : Int64
  nonneg : 0 ≤ millis.toInt

/-- A sweep under way. -/
inductive Sweep
  | clocked (timeoutMs : Int64) (now : UnixTime)
  | listed (timeoutMs : Int64) (now : UnixTime) (stale : List String)

structure Sweeping where
  registry : AgentRegistry
  sweeps : AList fun _ : Nat => Sweep

namespace Sweeping

def new : Sweeping := ⟨∅, ∅⟩

/-- What happens between two changes of the lock's holder; a `task` is a call of
`cleanup_stale`.  A removal comes with the time it is at. -/
inductive Step
  | register (metadata : AgentMetadata)
  | unregister (agentId : String)
  | updateHeartbeat (agentId : String) (now : UnixTime)
  | updateTrustScore (agentId : String) (trustScore : Float32)
  | markUnhealthy (agentId : String)
  | readClock (task : Nat) (timeoutMs : Int64) (now : UnixTime)
  | listStale (task : Nat)
  | removeListed (task : Nat) (now : UnixTime)

/-- `for id in stale { registry.remove(&id); }`. -/
def removeAll (reg : AgentRegistry) (stale : List String) : AgentRegistry :=
  stale.foldl (fun reg id => reg.erase id) reg

/-- `stale_agents` under the read lock; `none` is the overflow a build that checks panics at. -/
def listStale (checked : Bool) (reg : AgentRegistry) (timeoutMs now : Int64) :
    Option (List String) :=
  if checked = true ∧ ∃ e ∈ reg.entries, checkedSub now e.2.lastHeartbeat = none then none
  else some (reg.staleAgents timeoutMs now)

def step (checked : Bool) (s : Sweeping) : Step → Sweeping
  | .register metadata => { s with registry := s.registry.register metadata }
  | .unregister agentId => { s with registry := s.registry.unregister agentId }
  | .updateHeartbeat agentId now =>
      { s with registry := s.registry.updateHeartbeat agentId now.millis }
  | .updateTrustScore agentId trustScore =>
      { s with registry := s.registry.updateTrustScore agentId trustScore }
  | .markUnhealthy agentId => { s with registry := s.registry.markUnhealthy agentId }
  | .readClock task timeoutMs now =>
      { s with sweeps := s.sweeps.insert task (.clocked timeoutMs now) }
  | .listStale task =>
      match s.sweeps.lookup task with
      | some (.clocked timeoutMs now) =>
          match listStale checked s.registry timeoutMs now.millis with
          | some stale =>
              { s with sweeps := s.sweeps.insert task (.listed timeoutMs now stale) }
          | none => { s with sweeps := s.sweeps.erase task }
      | _ => s
  | .removeListed task _ =>
      match s.sweeps.lookup task with
      | some (.listed _ _ stale) =>
          { registry := removeAll s.registry stale, sweeps := s.sweeps.erase task }
      | _ => s

/-- With nothing in between, the three steps are `cleanup_stale`. -/
theorem step_cleanupStale (s : Sweeping) (task : Nat) (timeoutMs : Int64) (now later : UnixTime) :
    (Run.after (step false) s
      [.readClock task timeoutMs now, .listStale task, .removeListed task later]).registry =
      s.registry.cleanupStale timeoutMs now.millis := by
  have hlist : listStale false s.registry timeoutMs now.millis =
      some (s.registry.staleAgents timeoutMs now.millis) :=
    if_neg fun h => Bool.false_ne_true h.1
  simp only [Run.after_cons, Run.after_nil, step, AList.lookup_insert, hlist]
  rfl

/-! ## Staleness -/

/-- The agent's heartbeat is within the timeout at the time. -/
def Within (timeoutMs : Int64) (now : UnixTime) (agent : AgentMetadata) : Prop :=
  now.millis.toInt - agent.lastHeartbeat.toInt ≤ timeoutMs.toInt

/-- The step removes no agent whose heartbeat is within the timeout. -/
def Safe (checked : Bool) (s : Sweeping) : Step → Prop
  | .removeListed task now =>
      ∀ timeoutMs read stale, s.sweeps.lookup task = some (.listed timeoutMs read stale) →
        ∀ id agent, s.registry.lookup id = some agent →
          (s.step checked (.removeListed task now)).registry.lookup id = none →
            ¬ Within timeoutMs now agent
  | _ => True

/-- What the wrapping comparison finds stale is stale: a clock is not negative. -/
theorem not_within_of_lt {timeoutMs : Int64} {now : UnixTime} {agent : AgentMetadata}
    (h : timeoutMs < now.millis - agent.lastHeartbeat) : ¬ Within timeoutMs now agent := by
  have hnow := now.nonneg
  have htimeout := timeoutMs.toInt_lt
  have hbeat := agent.lastHeartbeat.toInt_lt
  rw [Int64.lt_iff_toInt_lt, IntentEnvelope.toInt_sub_eq] at h
  unfold Within
  split_ifs at h <;> omega

/-- Every agent is registered under its own id. -/
def Keyed (reg : AgentRegistry) : Prop :=
  ∀ id agent, reg.lookup id = some agent → agent.agentId = id

theorem stale_of_listed {checked : Bool} {reg : AgentRegistry} {timeoutMs : Int64}
    {now : UnixTime} {stale : List String} (hkeyed : Keyed reg)
    (hlist : listStale checked reg timeoutMs now.millis = some stale) {id : String}
    {agent : AgentMetadata} (hid : id ∈ stale) (hagent : reg.lookup id = some agent) :
    ¬ Within timeoutMs now agent := by
  unfold listStale at hlist
  split at hlist
  · cases hlist
  · obtain rfl := Option.some.inj hlist
    obtain ⟨e, he, hname⟩ := List.mem_map.mp hid
    obtain ⟨hmem, hold⟩ := List.mem_filter.mp he
    have hlookup : reg.lookup e.1 = some e.2 := AList.mem_lookup_iff.mpr hmem
    have hkey : e.1 = id := (hkeyed _ _ hlookup).symm.trans hname
    rw [hkey, hagent] at hlookup
    obtain rfl := Option.some.inj hlookup
    exact not_within_of_lt (of_decide_eq_true hold)

theorem mem_removeAll {reg : AgentRegistry} {stale : List String} {id : String} :
    id ∈ removeAll reg stale ↔ id ∈ reg ∧ id ∉ stale := by
  unfold removeAll
  induction stale generalizing reg with
  | nil => exact (and_iff_left List.not_mem_nil).symm
  | cons a stale ih =>
      rw [List.foldl_cons, ih, AList.mem_erase, List.mem_cons, not_or]
      tauto

theorem lookup_removeAll_of_mem (reg : AgentRegistry) {stale : List String} {id : String}
    (hid : id ∈ stale) : (removeAll reg stale).lookup id = none := by
  rw [AList.lookup_eq_none, mem_removeAll]
  exact fun h => h.2 hid

theorem lookup_removeAll_of_notMem (reg : AgentRegistry) {stale : List String} {id : String}
    (hid : id ∉ stale) : (removeAll reg stale).lookup id = reg.lookup id := by
  unfold removeAll
  induction stale generalizing reg with
  | nil => rfl
  | cons a stale ih =>
      rw [List.mem_cons, not_or] at hid
      rw [List.foldl_cons, ih _ hid.2, AList.lookup_erase_ne hid.1]

theorem registry_removeListed {s : Sweeping} {task : Nat} {timeoutMs : Int64} {read : UnixTime}
    {stale : List String} (hsweep : s.sweeps.lookup task = some (.listed timeoutMs read stale))
    (checked : Bool) (now : UnixTime) :
    (s.step checked (.removeListed task now)).registry = removeAll s.registry stale := by
  simp only [step, hsweep]

/-! ## Heard of since -/

/-- The ids that were registered or sent a heartbeat since a task made its list. -/
def heardAfter (s : Sweeping) (heard : Nat → List String) : Step → Nat → List String
  | .register metadata => fun task => metadata.agentId :: heard task
  | .updateHeartbeat agentId _ => fun task => agentId :: heard task
  | .listStale task =>
      match s.sweeps.lookup task with
      | some (.clocked _ _) => Function.update heard task []
      | _ => heard
  | _ => heard

/-- A removal finds its list as it was made: no agent on it was heard of since, and the clock
is not set back behind the sweep's own reading. -/
def Undisturbed (s : Sweeping) (heard : Nat → List String) : Step → Prop
  | .removeListed task now =>
      ∀ timeoutMs read stale, s.sweeps.lookup task = some (.listed timeoutMs read stale) →
        read.millis.toInt ≤ now.millis.toInt ∧ ∀ id ∈ stale, id ∉ heard task
  | _ => True

/-- So it is at every removal of the run. -/
def AllUndisturbed (checked : Bool) : Sweeping → (Nat → List String) → List Step → Prop
  | _, _, [] => True
  | s, heard, a :: steps =>
      Undisturbed s heard a ∧ AllUndisturbed checked (s.step checked a) (s.heardAfter heard a) steps

/-- What is known of a sweep under way: whoever is on its list was heard of since, or is stale
by the clock the sweep read. -/
structure Reads (s : Sweeping) (heard : Nat → List String) : Prop where
  keyed : Keyed s.registry
  stale : ∀ task timeoutMs read stale,
    s.sweeps.lookup task = some (.listed timeoutMs read stale) → ∀ id ∈ stale, ∀ agent,
      s.registry.lookup id = some agent → id ∈ heard task ∨ ¬ Within timeoutMs read agent

theorem reads_new (heard : Nat → List String) : Reads new heard where
  keyed := by
    intro id agent hagent
    cases hagent
  stale := by
    intro task timeoutMs read stale hsweep
    cases hsweep

/-- A change of the registry by which each agent that is there, is heard of or was there before
with the same heartbeat. -/
theorem Reads.registry {s : Sweeping} {heard heard' : Nat → List String} (h : Reads s heard)
    {reg : AgentRegistry} (hheard : ∀ task, heard task ⊆ heard' task) (hkeyed : Keyed reg)
    (hreg : ∀ id agent, reg.lookup id = some agent → (∀ task, id ∈ heard' task) ∨
      ∃ before, s.registry.lookup id = some before ∧
        before.lastHeartbeat = agent.lastHeartbeat) :
    Reads { s with registry := reg } heard' where
  keyed := hkeyed
  stale := by
    intro task timeoutMs read stale hsweep id hid agent hagent
    rcases hreg id agent hagent with hnew | ⟨before, hbefore, hbeat⟩
    · exact Or.inl (hnew task)
    · rcases h.stale task timeoutMs read stale hsweep id hid before hbefore with hsince | hold
      · exact Or.inl (hheard task hsince)
      · unfold Within at hold ⊢
        rw [hbeat] at hold
        exact Or.inr hold

theorem lookup_modify (reg : AgentRegistry) (agentId id : String)
    (f : AgentMetadata → AgentMetadata) :
    (reg.modify agentId f).lookup id =
      if id = agentId then (reg.lookup id).map f else reg.lookup id := by
  unfold AgentRegistry.modify
  by_cases hid : id = agentId
  · subst hid
    rw [if_pos rfl]
    cases hagent : reg.lookup id with
    | none => exact hagent
    | some agent => exact AList.lookup_insert reg
  · rw [if_neg hid]
    split
    · exact AList.lookup_insert_ne hid
    · rfl

theorem keyed_modify {reg : AgentRegistry} (h : Keyed reg) (agentId : String)
    {f : AgentMetadata → AgentMetadata} (hf : ∀ agent, (f agent).agentId = agent.agentId) :
    Keyed (reg.modify agentId f) := by
  intro id agent hagent
  rw [lookup_modify] at hagent
  split at hagent
  · obtain ⟨before, hbefore, rfl⟩ := Option.map_eq_some_iff.mp hagent
    exact (hf before).trans (h id before hbefore)
  · exact h id agent hagent

/-- A change that leaves the heartbeats alone. -/
theorem Reads.modify {s : Sweeping} {heard : Nat → List String} (h : Reads s heard)
    (agentId : String) {f : AgentMetadata → AgentMetadata}
    (hf : ∀ agent, (f agent).agentId = agent.agentId)
    (hbeat : ∀ agent, (f agent).lastHeartbeat = agent.lastHeartbeat) :
    Reads { s with registry := s.registry.modify agentId f } heard := by
  refine h.registry (fun _ => List.Subset.refl _) (keyed_modify h.keyed agentId hf) ?_
  intro id agent hagent
  rw [lookup_modify] at hagent
  split at hagent
  · obtain ⟨before, hbefore, rfl⟩ := Option.map_eq_some_iff.mp hagent
    exact Or.inr ⟨before, hbefore, (hbeat before).symm⟩
  · exact Or.inr ⟨agent, hagent, rfl⟩

/-- A change that only takes agents away. -/
theorem Reads.shrink {s : Sweeping} {heard : Nat → List String} (h : Reads s heard)
    {reg : AgentRegistry}
    (hreg : ∀ id agent, reg.lookup id = some agent → s.registry.lookup id = some agent) :
    Reads { s with registry := reg } heard := by
  refine h.registry (fun _ => List.Subset.refl _) ?_ ?_
  · intro id agent hagent
    exact h.keyed id agent (hreg id agent hagent)
  · intro id agent hagent
    exact Or.inr ⟨agent, hreg id agent hagent, rfl⟩

theorem Reads.forget {s : Sweeping} {heard : Nat → List String} (h : Reads s heard)
    (task : Nat) : Reads { s with sweeps := s.sweeps.erase task } heard where
  keyed := h.keyed
  stale := by
    intro t timeoutMs read stale hsweep
    by_cases ht : t = task
    · subst ht
      rw [AList.lookup_erase] at hsweep
      cases hsweep
    · rw [AList.lookup_erase_ne ht] at hsweep
      exact h.stale t timeoutMs read stale hsweep

/-- A task that has no list yet may forget what was heard. -/
theorem Reads.reset {s : Sweeping} {heard : Nat → List String} (h : Reads s heard) (task : Nat)
    {timeoutMs : Int64} {now : UnixTime}
    (hclocked : s.sweeps.lookup task = some (.clocked timeoutMs now)) :
    Reads s (Function.update heard task []) where
  keyed := h.keyed
  stale := by
    intro t timeoutMs' read stale hsweep id hid agent hagent
    by_cases ht : t = task
    · rw [ht, hclocked] at hsweep
      cases hsweep
    · rw [Function.update_of_ne ht]
      exact h.stale t timeoutMs' read stale hsweep id hid agent hagent

/-- A new list is read off the registry as it is. -/
theorem Reads.listed {checked : Bool} {s : Sweeping} {heard : Nat → List String}
    (h : Reads s heard) (task : Nat) {timeoutMs : Int64} {now : UnixTime} {stale : List String}
    (hlist : listStale checked s.registry timeoutMs now.millis = some stale) :
    Reads { s with sweeps := s.sweeps.insert task (.listed timeoutMs now stale) }
      (Function.update heard task []) where
  keyed := h.keyed
  stale := by
    intro t timeoutMs' read stale' hsweep id hid agent hagent
    by_cases ht : t = task
    · rw [ht, AList.lookup_insert] at hsweep
      cases hsweep
      exact Or.inr (stale_of_listed h.keyed hlist hid hagent)
    · rw [AList.lookup_insert_ne ht] at hsweep
      rw [Function.update_of_ne ht]
      exact h.stale t timeoutMs' read stale' hsweep id hid agent hagent

/-- Every step keeps it. -/
theorem reads_stale {checked : Bool} {s : Sweeping} {heard : Nat → List String} (a : Step)
    (h : Reads s heard) : Reads (s.step checked a) (s.heardAfter heard a) := by
  cases a with
  | register metadata =>
      refine h.registry (fun _ => List.subset_cons_self _ _) ?_ ?_
      · intro id agent hagent
        unfold AgentRegistry.register at hagent
        by_cases hid : id = metadata.agentId
        · rw [hid, AList.lookup_insert] at hagent
          obtain rfl := Option.some.inj hagent
          exact hid.symm
        · rw [AList.lookup_insert_ne hid] at hagent
          exact h.keyed id agent hagent
      · intro id agent hagent
        unfold AgentRegistry.register at hagent
        by_cases hid : id = metadata.agentId
        · exact Or.inl fun task => List.mem_cons.mpr (Or.inl hid)
        · rw [AList.lookup_insert_ne hid] at hagent
          exact Or.inr ⟨agent, hagent, rfl⟩
  | unregister agentId =>
      refine h.shrink fun id agent hagent => ?_
      unfold AgentRegistry.unregister at hagent
      by_cases hid : id = agentId
      · rw [hid, AList.lookup_erase] at hagent
        cases hagent
      · rw [AList.lookup_erase_ne hid] at hagent
        exact hagent
  | updateHeartbeat agentId now =>
      refine h.registry (fun _ => List.subset_cons_self _ _)
        (keyed_modify h.keyed agentId fun _ => rfl) ?_
      intro id agent hagent
      unfold AgentRegistry.updateHeartbeat at hagent
      rw [lookup_modify] at hagent
      by_cases hid : id = agentId
      · exact Or.inl fun task => List.mem_cons.mpr (Or.inl hid)
      · rw [if_neg hid] at hagent
        exact Or.inr ⟨agent, hagent, rfl⟩
  | updateTrustScore agentId trustScore => exact h.modify agentId (fun _ => rfl) fun _ => rfl
  | markUnhealthy agentId => exact h.modify agentId (fun _ => rfl) fun _ => rfl
  | readClock task timeoutMs now =>
      refine ⟨h.keyed, ?_⟩
      intro t timeoutMs' read stale hsweep
      have hbefore : (s.sweeps.insert task (.clocked timeoutMs now)).lookup t =
          some (.listed timeoutMs' read stale) := hsweep
      by_cases ht : t = task
      · rw [ht, AList.lookup_insert] at hbefore
        cases hbefore
      · rw [AList.lookup_insert_ne ht] at hbefore
        exact h.stale t timeoutMs' read stale hbefore
  | listStale task =>
      rw [step, heardAfter]
      split
      next timeoutMs now hclocked =>
        split
        next stale hlist => exact h.listed task hlist
        next => exact (h.reset task hclocked).forget task
      next => exact h
  | removeListed task now =>
      rw [step]
      split
      · next timeoutMs read stale _ =>
        have hfewer : ∀ id agent, (removeAll s.registry stale).lookup id = some agent →
            s.registry.lookup id = some agent := by
          intro id agent hagent
          by_cases hid : id ∈ stale
          · rw [lookup_removeAll_of_mem _ hid] at hagent
            cases hagent
          · rw [lookup_removeAll_of_notMem _ hid] at hagent
            exact hagent
        exact (h.shrink hfewer).forget task
      · exact h

/-- A removal that finds its list as it was made takes stale agents only. -/
theorem Reads.safe {checked : Bool} {s : Sweeping} {heard : Nat → List String} {a : Step}
    (h : Reads s heard) (ha : Undisturbed s heard a) : Safe checked s a := by
  cases a with
  | removeListed task now =>
      intro timeoutMs read stale hsweep id agent hagent hgone
      obtain ⟨hclock, hunheard⟩ := ha timeoutMs read stale hsweep
      rw [registry_removeListed hsweep] at hgone
      have hid : id ∈ stale := by
        by_contra hid
        rw [lookup_removeAll_of_notMem _ hid, hagent] at hgone
        cases hgone
      have hold := (h.stale task timeoutMs read stale hsweep id hid agent hagent).resolve_left
        (hunheard id hid)
      unfold Within at hold ⊢
      omega
  | register | unregister | updateHeartbeat | updateTrustScore | markUnhealthy | readClock
  | listStale => trivial

theorem safe_of_allUndisturbed {checked : Bool} {s : Sweeping} {heard : Nat → List String}
    {steps : List Step} (h : Reads s heard) (hsteps : AllUndisturbed checked s heard steps) :
    Run.Along (step checked) (Safe checked) s steps := by
  induction steps generalizing s heard with
  | nil => trivial
  | cons a steps ih => exact ⟨h.safe hsteps.1, ih (reads_stale a h) hsteps.2⟩

/-- A heartbeat of a listed agent, and the removal within the timeout of it. -/
theorem not_safe_of_heartbeat {checked : Bool} {s : Sweeping} {task : Nat} {timeoutMs : Int64}
    {read : UnixTime} {stale : List String}
    (hsweep : s.sweeps.lookup task = some (.listed timeoutMs read stale)) {id : String}
    (hid : id ∈ stale) (hthere : id ∈ s.registry) {beat removal : UnixTime}
    (hsoon : removal.millis.toInt - beat.millis.toInt ≤ timeoutMs.toInt) :
    ¬ Safe checked (s.step checked (.updateHeartbeat id beat)) (.removeListed task removal) := by
  intro hsafe
  obtain ⟨agent, hagent⟩ := Option.isSome_iff_exists.mp (AList.lookup_isSome.mpr hthere)
  refine hsafe timeoutMs read stale hsweep id
    { agent with lastHeartbeat := beat.millis, healthy := true } ?_ ?_ hsoon
  · show (s.registry.updateHeartbeat id beat.millis).lookup id = _
    rw [AgentRegistry.updateHeartbeat, lookup_modify, if_pos rfl, hagent]
    rfl
  · have hsweep' : (s.step checked (.updateHeartbeat id beat)).sweeps.lookup task =
        some (.listed timeoutMs read stale) := hsweep
    rw [registry_removeListed hsweep']
    exact lookup_removeAll_of_mem _ hid

/-- In every run in which each removal finds its list undisturbed, no agent is removed whose
heartbeat is within the timeout; and after any run, a heartbeat of an agent that is on a list
is not seen by the removal, however soon that follows. -/
theorem sweeps_safe (checked : Bool) (steps : List Step) :
    (AllUndisturbed checked new (fun _ => []) steps →
      Run.Along (step checked) (Safe checked) new steps) ∧
    ∀ task timeoutMs read stale,
      (Run.after (step checked) new steps).sweeps.lookup task =
          some (.listed timeoutMs read stale) →
        ∀ id ∈ stale, id ∈ (Run.after (step checked) new steps).registry →
          ∀ beat removal : UnixTime,
            removal.millis.toInt - beat.millis.toInt ≤ timeoutMs.toInt →
              ¬ Run.Along (step checked) (Safe checked) new
                (steps ++ [.updateHeartbeat id beat, .removeListed task removal]) := by
  refine ⟨fun hsteps => safe_of_allUndisturbed (reads_new _) hsteps, ?_⟩
  intro task timeoutMs read stale hsweep id hid hthere beat removal hsoon hsafe
  rw [Run.along_append] at hsafe
  exact not_safe_of_heartbeat hsweep hid hthere hsoon hsafe.2.2.1

/-! ## A heartbeat in between -/

/-- One minute after its last heartbeat the planner is on a list. -/
def listing : List Step :=
  [.register planner, .readClock 0 1000 ⟨60000, by decide⟩, .listStale 0]

theorem sweeps_listing (checked : Bool) :
    (Run.after (step checked) new listing).sweeps.lookup 0 =
      some (.listed 1000 ⟨60000, by decide⟩ ["planner"]) := by
  cases checked with
  | false => rfl
  | true => rfl

theorem mem_listing (checked : Bool) :
    "planner" ∈ (Run.after (step checked) new listing).registry := by
  cases checked with
  | false => decide
  | true => decide

/-- Then it beats, and is removed. -/
def lateBeat : List Step :=
  listing ++ [.updateHeartbeat "planner" ⟨60001, by decide⟩, .removeListed 0 ⟨60002, by decide⟩]

theorem removed_lateBeat (checked : Bool) :
    ¬ Run.Along (step checked) (Safe checked) new lateBeat := by
  intro hsafe
  unfold lateBeat at hsafe
  rw [Run.along_append] at hsafe
  refine not_safe_of_heartbeat (sweeps_listing checked) List.mem_cons_self (mem_listing checked)
    ?_ hsafe.2.2.1
  decide

theorem not_safe_lateBeat :
    (¬ ∀ steps : List Step, Run.Along (step false) (Safe false) new steps) ∧
      ¬ ∀ steps : List Step, Run.Along (step true) (Safe true) new steps :=
  ⟨fun h => removed_lateBeat false (h lateBeat), fun h => removed_lateBeat true (h lateBeat)⟩

/-- Where it stays silent, the removal is safe. -/
theorem sweeps_safe_silent :
    Run.Along (step true) (Safe true) new (listing ++ [.removeListed 0 ⟨60002, by decide⟩]) ∧
    ¬ Run.Along (step true) (Safe true) new lateBeat := by
  constructor
  · refine (sweeps_safe true (listing ++ [.removeListed 0 ⟨60002, by decide⟩])).1 ?_
    simp only [listing, List.cons_append, List.nil_append, AllUndisturbed]
    refine ⟨trivial, trivial, trivial, ?_, trivial⟩
    intro timeoutMs read stale hsweep
    cases (sweeps_listing true).symm.trans hsweep
    refine ⟨by decide, fun id _ hid => ?_⟩
    exact List.not_mem_nil hid
  · refine (sweeps_safe true listing).2 0 1000 _ ["planner"] (sweeps_listing true) "planner"
      List.mem_cons_self (mem_listing true) _ _ ?_
    decide

end Sweeping

end AgentIpc

/-
# `Cognos.Scheduler.Hysteresis` — how long a scenario is seen before it is switched to

One timer stands for a new scenario that has been seen since.  It is started by a tick that
detects another scenario than the current one, and cleared by one that detects the current
one; it does not say which scenario it was started for, and ticks under an override pass it
by.  Beside the daemon runs what the tick that started the timer detected.

    settle_since, settle_replaces   what a tick does with the timer, and when it switches
    sinceStart_after                the ticks since the timer was started, along a steady run
    switchesStable_of_steady        each switch of a steady run is to a scenario seen since
-/
import Cognos.Scheduler.Daemon

namespace Scheduler

namespace SchedulerDaemon

/-! ## The timer -/

/-- An override is in force. -/
def Overridden (d : SchedulerDaemon) (checked : Instant) : Prop :=
  ∃ ov ∈ d.userOverride, ov.InForce checked

instance (d : SchedulerDaemon) (checked : Instant) : Decidable (d.Overridden checked) :=
  inferInstanceAs (Decidable (∃ ov ∈ d.userOverride, ov.InForce checked))

/-- Under an override the timer is passed by. -/
theorem since_tick_overridden {d : SchedulerDaemon} {checked : Instant}
    (h : d.Overridden checked) (metrics : SystemMetrics) (now : Instant) :
    (d.tick metrics checked now).scenarioSince = d.scenarioSince := by
  obtain ⟨ov, hov, hforce⟩ := h
  rw [tick_inForce hov hforce]
  split_ifs <;> rfl

/-- Without one in force it is dropped. -/
theorem tick_free {d : SchedulerDaemon} {checked : Instant} (h : ¬ d.Overridden checked)
    (metrics : SystemMetrics) (now : Instant) :
    d.tick metrics checked now =
      ({ d with userOverride := none }).settle (detectScenario metrics) now := by
  cases hov : d.userOverride with
  | none =>
      rw [tick_none hov]
      cases d
      cases hov
      rfl
  | some ov => exact tick_expired hov (fun hforce => h ⟨ov, hov, hforce⟩) metrics now

/-- A timer that runs was started now, or before and another scenario than the current one is
detected. -/
theorem settle_since {d : SchedulerDaemon} {detected : Scenario} {now since : Instant}
    (h : (d.settle detected now).scenarioSince = some since) :
    (d.scenarioSince = none ∧ since = now) ∨
      (d.scenarioSince = some since ∧ d.currentScenario ≠ some detected) := by
  unfold settle at h
  split at h
  · cases h
  · next current hcurrent =>
      split at h
      · next hne =>
          unfold waitOrSwitch at h
          split at h
          · next hnone => exact Or.inl ⟨hnone, (Option.some.inj h).symm⟩
          · split at h
            · cases h
            · refine Or.inr ⟨h, ?_⟩
              rw [hcurrent]
              exact fun he => hne (Option.some.inj he)
      · cases h

/-- The scenario changes only by a switch. -/
theorem settle_replaces {d : SchedulerDaemon} {detected s : Scenario} {now : Instant}
    (hne : d.currentScenario ≠ some s) (h : (d.settle detected now).currentScenario = some s) :
    d.Switches detected now ∧ detected = s := by
  by_cases hswitch : d.Switches detected now
  · rw [settle_switches hswitch] at h
    exact ⟨hswitch, Option.some.inj h⟩
  · obtain ⟨since, hstays⟩ := settle_stays hswitch
    rw [hstays] at h
    exact absurd h hne

/-! ## What the timer was started for -/

/-- The scenario an event detects. -/
def Event.detected : Event → Option Scenario
  | .tick metrics _ _ => some (detectScenario metrics)
  | .override _ _ _ => none

/-- The daemon, and what the tick that started the timer detected. -/
structure Watched where
  daemon : SchedulerDaemon
  startedFor : Option Scenario

namespace Watched

def new : Watched := ⟨.new, none⟩

def step (w : Watched) (e : Event) : Watched :=
  let d := w.daemon.step e
  { daemon := d
    startedFor :=
      if d.scenarioSince = none then none
      else if w.daemon.scenarioSince = none then e.detected
      else w.startedFor }

def afterEvents (events : List Event) : Watched := Run.after step new events

theorem daemon_afterEvents (events : List Event) :
    (afterEvents events).daemon = SchedulerDaemon.afterEvents events := by
  have hstep : ∀ (w : Watched) (d : SchedulerDaemon) (e : Event), w.daemon = d →
      (w.step e).daemon = d.step e := by
    rintro w d e rfl
    rfl
  exact Run.related step hstep rfl events

/-- While the timer runs a tick detects what the timer was started for, or, with no override in
force, the current scenario. -/
def Steady (w : Watched) : Event → Prop
  | .tick metrics checked _ =>
      ∀ s ∈ w.startedFor, detectScenario metrics = s ∨
        (¬ w.daemon.Overridden checked ∧
          w.daemon.currentScenario = some (detectScenario metrics))
  | .override _ _ _ => True

end Watched

/-- Since a tick at `since` that detected `s` all ticks detected it. -/
def SeenSince (past : List Event) (s : Scenario) (since : Instant) : Prop :=
  ∃ before metrics checked after,
    past = before ++ .tick metrics checked since :: after ∧ detectScenario metrics = s ∧
      ∀ e ∈ after, ∀ s' ∈ e.detected, s' = s

theorem SeenSince.snoc {past : List Event} {s : Scenario} {since : Instant}
    (h : SeenSince past s since) {e : Event} (he : ∀ s' ∈ e.detected, s' = s) :
    SeenSince (past ++ [e]) s since := by
  obtain ⟨before, metrics, checked, after, rfl, hs, hafter⟩ := h
  refine ⟨before, metrics, checked, after ++ [e], by simp, hs, ?_⟩
  intro e' he'
  rcases List.mem_append.mp he' with he' | he'
  · exact hafter e' he'
  · rw [List.mem_singleton.mp he']
    exact he

/-- Whenever the timer runs, all ticks since it was started detected what it was started for. -/
def SinceStart (past : List Event) (w : Watched) : Prop :=
  ∀ since ∈ w.daemon.scenarioSince, ∃ s ∈ w.startedFor, SeenSince past s since

theorem startedFor_kept {w : Watched} {e : Event} {a b : Instant}
    (h : (w.daemon.step e).scenarioSince = some a) (h' : w.daemon.scenarioSince = some b) :
    (w.step e).startedFor = w.startedFor := by
  rw [Watched.step, h, h', if_neg (Option.some_ne_none a), if_neg (Option.some_ne_none b)]

theorem startedFor_started {w : Watched} {e : Event} {a : Instant}
    (h : (w.daemon.step e).scenarioSince = some a) (h' : w.daemon.scenarioSince = none) :
    (w.step e).startedFor = e.detected := by
  rw [Watched.step, h, h', if_neg (Option.some_ne_none a), if_pos rfl]

/-- A timer that goes on running, past an event that detects what it was started for. -/
theorem SinceStart.snoc {past : List Event} {w : Watched} (h : SinceStart past w) {e : Event}
    {since : Instant} (hold : w.daemon.scenarioSince = some since)
    (hnew : (w.daemon.step e).scenarioSince = some since)
    (he : ∀ s ∈ w.startedFor, ∀ s' ∈ e.detected, s' = s) :
    ∃ s ∈ (w.step e).startedFor, SeenSince (past ++ [e]) s since := by
  obtain ⟨s, hs, hseen⟩ := h since hold
  rw [startedFor_kept hnew hold]
  exact ⟨s, hs, hseen.snoc (he s hs)⟩

theorem sinceStart_step {past : List Event} {w : Watched} (h : SinceStart past w) {e : Event}
    (hsteady : w.Steady e) : SinceStart (past ++ [e]) (w.step e) := by
  intro since hsince
  cases e with
  | override scenario duration now =>
      refine h.snoc hsince hsince ?_
      intro s _ s' hs'
      cases hs'
  | tick metrics checked now =>
      have hnew : (w.daemon.tick metrics checked now).scenarioSince = some since := hsince
      by_cases hover : w.daemon.Overridden checked
      · refine h.snoc ?_ hsince ?_
        · rw [← since_tick_overridden hover metrics now]
          exact hnew
        · intro s hs s' hs'
          rw [← Option.some.inj hs']
          exact (hsteady s hs).resolve_right fun hcurrent => hcurrent.1 hover
      · rw [tick_free hover] at hnew
        rcases settle_since hnew with ⟨hnone, rfl⟩ | ⟨hold, hother⟩
        · refine ⟨detectScenario metrics, ?_, past, metrics, checked, [], rfl, rfl, ?_⟩
          · rw [startedFor_started hsince hnone]
            exact rfl
          · intro e he
            cases he
        · refine h.snoc hold hsince ?_
          intro s hs s' hs'
          rw [← Option.some.inj hs']
          exact (hsteady s hs).resolve_right fun hcurrent => hother hcurrent.2

theorem sinceStart_after (past : List Event)
    (hsteady : Run.Along Watched.step Watched.Steady .new past) :
    SinceStart past (Watched.afterEvents past) := by
  induction past using List.reverseRecOn with
  | nil =>
      intro since hsince
      cases hsince
  | append_singleton past e ih =>
      obtain ⟨hpast, he, -⟩ := (Run.along_append _ _ _ _ _).mp hsteady
      rw [Watched.afterEvents, Run.after_append]
      exact sinceStart_step (ih hpast) he

/-! ## Switches -/

/-- Without an override in force the tick replaces a current scenario by `s`. -/
def Replaces (d : SchedulerDaemon) (metrics : SystemMetrics) (checked now : Instant)
    (s : Scenario) : Prop :=
  ¬ d.Overridden checked ∧ (∃ c, d.currentScenario = some c ∧ c ≠ s) ∧
    (d.tick metrics checked now).currentScenario = some s

/-- Each switch is to a scenario that it detects, as did all ticks since one a whole hysteresis
period before. -/
def SwitchesStable (events : List Event) : Prop :=
  ∀ past metrics checked now rest s, events = past ++ .tick metrics checked now :: rest →
    (afterEvents past).Replaces metrics checked now s →
      detectScenario metrics = s ∧
        ∃ since, since + hysteresis ≤ now ∧ SeenSince past s since

/-- A replacement is a switch of a timer that has run out. -/
theorem Replaces.switches {d : SchedulerDaemon} {metrics : SystemMetrics} {checked now : Instant}
    {s : Scenario} (h : d.Replaces metrics checked now s) :
    detectScenario metrics = s ∧ d.currentScenario ≠ some s ∧
      ∃ since ∈ d.scenarioSince, hysteresis ≤ now - since := by
  obtain ⟨hfree, ⟨c, hcurrent, hne⟩, hafter⟩ := h
  have hcs : d.currentScenario ≠ some s := by
    rw [hcurrent]
    exact fun he => hne (Option.some.inj he)
  rw [tick_free hfree] at hafter
  obtain ⟨hswitch, hdetected⟩ :=
    settle_replaces (d := { d with userOverride := none }) hcs hafter
  exact ⟨hdetected, hcs, (hswitch c hcurrent).2⟩

/-- In a run where the ticks are steady while the timer runs, all switches are stable. -/
theorem switchesStable_of_steady (events : List Event)
    (h : Run.Along Watched.step Watched.Steady .new events) : SwitchesStable events := by
  intro past metrics checked now rest s hevents hreplaces
  rw [hevents] at h
  obtain ⟨hpast, hsteady, -⟩ := (Run.along_append _ _ _ _ _).mp h
  obtain ⟨rfl, hother, since, hsince, hlong⟩ := hreplaces.switches
  rw [← Watched.daemon_afterEvents past] at hother hsince
  obtain ⟨s, hs, hseen⟩ := sinceStart_after past hpast since hsince
  -- the timer was started for what this tick detects
  have hsame : detectScenario metrics = s :=
    (hsteady s hs).resolve_right fun hstable => hother hstable.2
  refine ⟨rfl, since, ?_, ?_⟩
  · have hpositive : 0 < hysteresis := by decide
    have hle : since ≤ now := (Nat.lt_of_sub_pos (hpositive.trans_le hlong)).le
    exact (Nat.le_sub_iff_add_le' hle).mp hlong
  · rw [hsame]
    exact hseen

/-! ## A timer for another scenario -/

/-- Coding is current; a game is seen once, and half a minute later an idle desktop. -/
def alternating : List Event :=
  [.tick (foreground "vscode") (seconds 0) (seconds 0),
    .tick (foreground "steam") (seconds 10) (seconds 10)]

/-- The desktop is switched to at first sight. -/
theorem not_switchesStable_alternating :
    ¬ SwitchesStable (alternating ++ [.tick (foreground "") (seconds 40) (seconds 40)]) := by
  intro h
  obtain ⟨-, since, -, before, metrics, checked, after, hsplit, hs, -⟩ :=
    h alternating (foreground "") (seconds 40) (seconds 40) [] .generalUse rfl
      ⟨by decide, ⟨.codingActive, by decide, by decide⟩, by decide⟩
  have hmem : Event.tick metrics checked since ∈ alternating := by
    rw [hsplit]
    exact List.mem_append_right _ List.mem_cons_self
  rcases List.mem_pair.mp hmem with heq | heq
  · obtain ⟨rfl, -, -⟩ := Event.tick.inj heq
    exact absurd hs (by decide)
  · obtain ⟨rfl, -, -⟩ := Event.tick.inj heq
    exact absurd hs (by decide)

/-- A game that goes on for half a minute is switched to. -/
theorem switchesStable_of_steady_gaming :
    SwitchesStable (alternating ++ [.tick (foreground "steam") (seconds 40) (seconds 40)]) := by
  refine switchesStable_of_steady _ ⟨?_, ?_, ?_, trivial⟩
  · intro s hs
    cases hs
  · intro s hs
    cases hs
  · intro s hs
    exact Or.inl (Option.some.inj hs)

end SchedulerDaemon

end Scheduler

/-
# `Cognos.Scheduler.Daemon` — scenarios, overrides and the policy in force

The daemon polls the system, detects a scenario and applies its policy; a user may force
another for some time.  Instants and durations are in nanoseconds.  A tick reads the clock
once for the override and once more for the timer of the hysteresis.  Of a policy that is
applied only its scenario is kept, in `applied`; whether the system took it is not seen.

    settle_switches      what a tick without an override does
    recorded_step        what keeps the policy in force and the scenario recorded together
    policyRecorded_iff   and so along a run
-/
import Mathlib
import Cognos.Lib.Run
import Cognos.Lib.Text

namespace Scheduler

/-! ## What is seen of the system -/

inductive Scenario
  | codingActive | videoRendering | batteryCritical | idleOvernight | gaming | vibeCoding
  | generalUse
  deriving DecidableEq, Repr

structure ProcessInfo where
  name : String
  cpuPercent : Float32

/-- What a scenario is detected by. -/
structure SystemMetrics where
  gpuUsage : Float32
  batteryPercent : UInt8
  batteryDischarging : Bool
  processList : List ProcessInfo
  foregroundApp : String
  userIdleSeconds : UInt64
  hourOfDay : UInt8

def codingApps : List String :=
  ["vscode", "code", "vim", "neovim", "nvim", "emacs", "jetbrains", "idea", "pycharm", "clion",
    "rider"]

def renderProcs : List String := ["ffmpeg", "blender", "kdenlive"]

/-- `detect_scenario`: the more specific scenarios come first. -/
def detectScenario (m : SystemMetrics) : Scenario :=
  let fg := Text.toLowercase m.foregroundApp
  let procs := m.processList.map fun p => Text.toLowercase p.name
  let isCodingApp := codingApps.any (Text.contains fg)
  let isRenderProc := renderProcs.any (procs.contains ·)
  let isGaming := Text.contains fg "steam" || Text.contains fg "lutris" ||
    Text.contains fg "wine" || (m.gpuUsage > 0.70 && m.processList.any (·.cpuPercent > 0.1))
  let hasAiProc := procs.contains "ollama" || procs.contains "claude"
  let isOvernight := m.userIdleSeconds > 1800 && (m.hourOfDay ≥ 22 || m.hourOfDay ≤ 7)
  if m.batteryDischarging && m.batteryPercent < 15 then .batteryCritical
  else if isCodingApp && hasAiProc && m.batteryPercent > 20 then .vibeCoding
  else if isCodingApp && m.batteryPercent > 20 then .codingActive
  else if m.gpuUsage > 0.80 && isRenderProc then .videoRendering
  else if isGaming then .gaming
  else if isOvernight then .idleOvernight
  else .generalUse

/-! ## The daemon -/

abbrev Instant := Nat

abbrev Duration := Nat

/-- `Duration::from_secs`. -/
def seconds (n : Nat) : Duration := n * 10 ^ 9

/-- How long a new scenario must be stable before the policy is switched. -/
def hysteresis : Duration := seconds 30

/-- A scenario that the user asked for. -/
structure UserOverride where
  scenario : Scenario
  expiresAt : Option Instant
  deriving DecidableEq

/-- The override has not expired. -/
def UserOverride.InForce (ov : UserOverride) (now : Instant) : Prop :=
  ∀ e ∈ ov.expiresAt, now < e

instance (ov : UserOverride) (now : Instant) : Decidable (ov.InForce now) :=
  inferInstanceAs (Decidable (∀ e ∈ ov.expiresAt, now < e))

structure SchedulerDaemon where
  currentScenario : Option Scenario
  scenarioSince : Option Instant
  userOverride : Option UserOverride
  /-- The scenario whose policy was applied last. -/
  applied : Option Scenario
  deriving DecidableEq

namespace SchedulerDaemon

def new : SchedulerDaemon := ⟨none, none, none, none⟩

def applyPolicy (d : SchedulerDaemon) (scenario : Scenario) : SchedulerDaemon :=
  { d with applied := some scenario }

/-- The policy is applied and its scenario becomes the current one. -/
def follow (d : SchedulerDaemon) (scenario : Scenario) : SchedulerDaemon :=
  { d.applyPolicy scenario with currentScenario := some scenario }

/-- The switch at the end of a tick. -/
def switchTo (d : SchedulerDaemon) (detected : Scenario) : SchedulerDaemon :=
  ({ d with scenarioSince := none }).follow detected

/-- Another scenario than the current one is detected: the timer is started, or has run out. -/
def waitOrSwitch (d : SchedulerDaemon) (detected : Scenario) (now : Instant) : SchedulerDaemon :=
  match d.scenarioSince with
  | none => { d with scenarioSince := some now }
  | some since => if hysteresis ≤ now - since then d.switchTo detected else d

/-- A tick, past the override. -/
def settle (d : SchedulerDaemon) (detected : Scenario) (now : Instant) : SchedulerDaemon :=
  match d.currentScenario with
  | none => d.switchTo detected
  | some current =>
      if current ≠ detected then d.waitOrSwitch detected now
      -- stable: the timer is reset
      else { d with scenarioSince := none }

/-- One tick; `checked` is the time when it looks at the override, `now` when it looks at the
timer. -/
def tick (d : SchedulerDaemon) (metrics : SystemMetrics) (checked now : Instant) :
    SchedulerDaemon :=
  let detected := detectScenario metrics
  match d.userOverride with
  | some ov =>
      if ov.InForce checked then
        if some ov.scenario ≠ d.currentScenario then d.follow ov.scenario else d
      else ({ d with userOverride := none }).settle detected now
  | none => d.settle detected now

def applyUserOverride (d : SchedulerDaemon) (scenario : Scenario) (duration : Option Duration)
    (now : Instant) : SchedulerDaemon :=
  ({ d with userOverride := some ⟨scenario, duration.map (now + ·)⟩ }).applyPolicy scenario

/-- A call on the daemon, with what it reads of the clock. -/
inductive Event
  | tick (metrics : SystemMetrics) (checked now : Instant)
  | override (scenario : Scenario) (duration : Option Duration) (now : Instant)

def step (d : SchedulerDaemon) : Event → SchedulerDaemon
  | .tick metrics checked now => d.tick metrics checked now
  | .override scenario duration now => d.applyUserOverride scenario duration now

/-- The daemon after the events. -/
def afterEvents (events : List Event) : SchedulerDaemon := Run.after step new events

/-! ## What a tick does -/

/-- Past the override the tick switches to what it detected: there is no scenario yet, or
another one, and the timer has run out. -/
def Switches (d : SchedulerDaemon) (detected : Scenario) (now : Instant) : Prop :=
  ∀ current ∈ d.currentScenario,
    current ≠ detected ∧ ∃ since ∈ d.scenarioSince, hysteresis ≤ now - since

theorem settle_switches {d : SchedulerDaemon} {detected : Scenario} {now : Instant}
    (h : d.Switches detected now) : d.settle detected now = d.switchTo detected := by
  unfold settle
  split
  · rfl
  · next current hcurrent =>
      obtain ⟨hne, since, hsince, hold⟩ := h current hcurrent
      rw [if_pos hne, waitOrSwitch, Option.mem_def.mp hsince]
      exact if_pos hold

/-- Without a switch nothing but the timer changes. -/
theorem settle_stays {d : SchedulerDaemon} {detected : Scenario} {now : Instant}
    (h : ¬ d.Switches detected now) :
    ∃ since, d.settle detected now = { d with scenarioSince := since } := by
  unfold settle
  split
  · next hcurrent => exact absurd (fun current hc => by rw [hcurrent] at hc; cases hc) h
  · next current hcurrent =>
      by_cases hne : current = detected
      · exact ⟨none, if_neg (not_not.mpr hne)⟩
      · rw [if_pos hne, waitOrSwitch]
        split
        · exact ⟨some now, rfl⟩
        · next since hsince =>
            refine ⟨d.scenarioSince, if_neg fun hold => h fun current' hcurrent' => ?_⟩
            rw [hcurrent, Option.mem_some_iff] at hcurrent'
            exact ⟨hcurrent' ▸ hne, since, hsince, hold⟩

/-- What a tick does with the override: it is not there, in force, or expired. -/
theorem tick_none {d : SchedulerDaemon} (h : d.userOverride = none) (metrics : SystemMetrics)
    (checked now : Instant) :
    d.tick metrics checked now = d.settle (detectScenario metrics) now := by
  rw [tick, h]

theorem tick_inForce {d : SchedulerDaemon} {ov : UserOverride} (h : d.userOverride = some ov)
    {checked : Instant} (hforce : ov.InForce checked) (metrics : SystemMetrics) (now : Instant) :
    d.tick metrics checked now =
      if some ov.scenario ≠ d.currentScenario then d.follow ov.scenario else d := by
  rw [tick, h]
  exact if_pos hforce

theorem tick_expired {d : SchedulerDaemon} {ov : UserOverride} (h : d.userOverride = some ov)
    {checked : Instant} (hforce : ¬ ov.InForce checked) (metrics : SystemMetrics)
    (now : Instant) :
    d.tick metrics checked now =
      ({ d with userOverride := none }).settle (detectScenario metrics) now := by
  rw [tick, h]
  exact if_neg hforce

/-! ## The policy in force -/

/-- The policy applied last is that of the override, if there is one, and of the current
scenario otherwise. -/
def Recorded (d : SchedulerDaemon) : Prop :=
  d.applied = match d.userOverride with
    | some ov => some ov.scenario
    | none => d.currentScenario

theorem recorded_none {d : SchedulerDaemon} (h : d.userOverride = none) :
    d.Recorded ↔ d.applied = d.currentScenario := by
  rw [Recorded, h]

theorem recorded_some {d : SchedulerDaemon} {ov : UserOverride} (h : d.userOverride = some ov) :
    d.Recorded ↔ d.applied = some ov.scenario := by
  rw [Recorded, h]

theorem recorded_settle {d : SchedulerDaemon} (h : d.userOverride = none) {detected : Scenario}
    {now : Instant} :
    (d.settle detected now).Recorded ↔ d.applied = d.currentScenario ∨ d.Switches detected now := by
  by_cases hswitch : d.Switches detected now
  · rw [settle_switches hswitch]
    refine iff_of_true ?_ (Or.inr hswitch)
    exact (recorded_none (d := d.switchTo detected) h).mpr rfl
  · obtain ⟨since, hstays⟩ := settle_stays hswitch
    rw [hstays, or_iff_left hswitch]
    exact recorded_none h

/-- No tick finds an override expired that is not the current scenario's, unless it switches
itself. -/
def KeepsRecord (d : SchedulerDaemon) : Event → Prop
  | .tick metrics checked now =>
      ∀ ov ∈ d.userOverride, ¬ ov.InForce checked →
        some ov.scenario = d.currentScenario ∨ d.Switches (detectScenario metrics) now
  | .override _ _ _ => True

/-- The record is kept exactly by such steps. -/
theorem recorded_step {d : SchedulerDaemon} (hd : d.Recorded) (e : Event) :
    (d.step e).Recorded ↔ d.KeepsRecord e := by
  cases e with
  | override scenario duration now => exact iff_of_true rfl trivial
  | tick metrics checked now =>
      show (d.tick metrics checked now).Recorded ↔ ∀ ov ∈ d.userOverride, _
      cases hov : d.userOverride with
      | none =>
          rw [tick_none hov, recorded_settle hov]
          refine iff_of_true (Or.inl ((recorded_none hov).mp hd)) ?_
          intro ov h
          cases h
      | some ov =>
          have hd' := (recorded_some hov).mp hd
          simp only [Option.mem_some_iff, forall_eq']
          by_cases hforce : ov.InForce checked
          · rw [tick_inForce hov hforce]
            refine iff_of_true ?_ fun h => absurd hforce h
            split_ifs
            · exact (recorded_some (d := d.follow ov.scenario) hov).mpr rfl
            · exact hd
          · rw [tick_expired hov hforce, recorded_settle rfl]
            show d.applied = d.currentScenario ∨ d.Switches _ now ↔ _
            rw [hd']
            exact (imp_iff_right hforce).symm

/-- After each tick of the run the policy in force is the one recorded. -/
def PolicyRecorded (events : List Event) : Prop :=
  ∀ past metrics checked now rest, events = past ++ .tick metrics checked now :: rest →
    (afterEvents (past ++ [.tick metrics checked now])).Recorded

theorem policyRecorded_iff_throughout (events : List Event) :
    PolicyRecorded events ↔ Run.Throughout step Recorded new events := by
  constructor
  · rintro h past ⟨rest, hpast⟩
    rcases List.eq_nil_or_concat' past with rfl | ⟨before, e, rfl⟩
    · exact rfl
    · cases e with
      | tick metrics checked now =>
          refine h before metrics checked now rest ?_
          rw [← hpast, List.append_assoc, List.singleton_append]
      | override scenario duration now =>
          rw [Run.after_append]
          exact rfl
  · intro h past metrics checked now rest hevents
    refine h _ ⟨rest, ?_⟩
    rw [hevents, List.append_assoc, List.singleton_append]

/-- The policy in force is the one recorded exactly in the runs whose ticks find no override
expired that is not the current scenario's, or switch themselves. -/
theorem policyRecorded_iff (events : List Event) :
    PolicyRecorded events ↔ Run.Along step KeepsRecord new events := by
  rw [policyRecorded_iff_throughout]
  exact Run.throughout_invariant_iff step (fun d e hd => recorded_step hd e) rfl

/-! ## An override that is over before the next tick -/

/-- Metrics with this application in the foreground. -/
def foreground (app : String) : SystemMetrics where
  gpuUsage := 0
  batteryPercent := 80
  batteryDischarging := false
  processList := []
  foregroundApp := app
  userIdleSeconds := 0
  hourOfDay := 12

example : detectScenario (foreground "vscode") = .codingActive := by decide

/-- A game mode of one second, between two ticks. -/
def shortOverride : List Event :=
  [.tick (foreground "vscode") (seconds 0) (seconds 0),
    .override .gaming (some (seconds 1)) (seconds 1)]

/-- The next tick finds it expired and leaves its policy applied. -/
theorem not_policyRecorded_shortOverride :
    ¬ PolicyRecorded (shortOverride ++ [.tick (foreground "vscode") (seconds 3) (seconds 3)]) := by
  intro h
  have hrecorded : some Scenario.gaming = some Scenario.codingActive :=
    h shortOverride (foreground "vscode") (seconds 3) (seconds 3) [] rfl
  cases hrecorded

end SchedulerDaemon

end Scheduler

/-
# `Cognos.Kernel.AnomalyGuard` — the eBPF anomaly detector

`kernel/ebpf/anomaly_guard.c`: three programs count system calls by pid, and `execve` and
`connect` by agent, each in a window that tumbles; the event that takes a count to its
threshold puts an alert on the ring buffer.

The counters keep a number and a time.  What they stand for is the whole history
(`Watched`): the events of each key, the window the last of them is in, and which keys came
while the hash map still had room.

    access_alone            an event that no other comes between is counted as in one step
    refines_step            one such event keeps the counters what the history says
    alerts_eq               so of such events the guard raises exactly the alerts the history
                            calls for
    exists_alert_of_burst   and a burst of twice the threshold is never missed
    came_of_alerts          however the CPUs come between one another, there are as many events
                            as the threshold says before an alert
-/
import Mathlib.Data.List.AList
import Mathlib.Data.List.Dedup
import Mathlib.Logic.Function.Basic
import Cognos.Lib.Run
import Cognos.Lib.Tumbling

namespace Kernel

/-! ## The program -/

/-- `struct rate_bucket` -/
structure RateBucket where
  count : UInt64
  windowStart : UInt64
deriving DecidableEq

/-- `WINDOW_NS` -/
def windowNs : UInt64 := 1000000000

/-- A `BPF_MAP_TYPE_HASH` from a pid or an agent id. -/
abbrev BpfHash (β : Type) := AList fun _ : UInt32 => β

/-- `bpf_map_update_elem` with `BPF_NOEXIST`: a full map takes no new key. -/
def BpfHash.updateNoExist {β : Type} (maxEntries : Nat) (m : BpfHash β) (key : UInt32) (b : β) :
    BpfHash β :=
  if key ∈ m then m else if m.keys.length < maxEntries then m.insert key b else m

/-- Lazily resets a bucket when its window has elapsed. -/
def maybeReset (b : RateBucket) (now : UInt64) : RateBucket :=
  if windowNs ≤ now - b.windowStart then { count := 0, windowStart := now } else b

/-- What the three programs do with the bucket of a key, when no other CPU is at it meanwhile:
count the event, and say when the count meets the threshold.  It is the run of their single
accesses to the map (`access_alone`). -/
def countEvent (maxEntries : Nat) (threshold : UInt64) (m : BpfHash RateBucket) (key : UInt32)
    (now : UInt64) : BpfHash RateBucket × Option UInt64 :=
  match m.lookup key with
  | none => (m.updateNoExist maxEntries key { count := 1, windowStart := now }, none)
  | some b =>
      let reset := maybeReset b now
      let b := { reset with count := reset.count + 1 }
      (m.insert key b, if b.count = threshold then some b.count else none)

/-- What a program does next with the map: the accesses in their order, or it is through, with
the count it read for an alert. -/
inductive Access
  | lookup
  | create
  | check
  | clear
  | reopen
  | add
  | compare
  | alert
  | done (rate : Option UInt64)
deriving DecidableEq

/-- A write through the pointer that the lookup gave. -/
def BpfHash.modify {β : Type} (m : BpfHash β) (key : UInt32) (f : β → β) : BpfHash β :=
  match m.lookup key with
  | none => m
  | some b => m.insert key (f b)

/-- One access of a program that handles an event of the key: the map behind it, and what comes
next.  Between two of them other CPUs may come. -/
def access (maxEntries : Nat) (threshold : UInt64) (key : UInt32) (now : UInt64)
    (m : BpfHash RateBucket) : Access → BpfHash RateBucket × Access
  | .lookup => (m, if key ∈ m then .check else .create)
  | .create => (m.updateNoExist maxEntries key { count := 1, windowStart := now }, .done none)
  | .check =>
      match m.lookup key with
      | none => (m, .done none)
      | some b => (m, if windowNs ≤ now - b.windowStart then .clear else .add)
  | .clear => (m.modify key fun b => { b with count := 0 }, .reopen)
  | .reopen => (m.modify key fun b => { b with windowStart := now }, .add)
  | .add => (m.modify key fun b => { b with count := b.count + 1 }, .compare)
  | .compare =>
      match m.lookup key with
      | none => (m, .done none)
      | some b => (m, if b.count = threshold then .alert else .done none)
  | .alert => (m, .done ((m.lookup key).map RateBucket.count))
  | .done rate => (m, .done rate)

/-- A program that no other comes between counts as in one step. -/
theorem access_alone (maxEntries : Nat) (threshold : UInt64) (m : BpfHash RateBucket)
    (key : UInt32) (now : UInt64) :
    (fun s => access maxEntries threshold key now s.1 s.2)^[7] (m, .lookup) =
      ((countEvent maxEntries threshold m key now).1,
        .done (countEvent maxEntries threshold m key now).2) := by
  cases hlookup : m.lookup key with
  | none =>
      have hnew : key ∉ m := AList.lookup_eq_none.mp hlookup
      simp [Function.iterate_succ_apply, access, countEvent, hlookup, hnew]
  | some b =>
      have hmem : key ∈ m := AList.lookup_isSome.mp (by rw [hlookup]; rfl)
      by_cases hover : windowNs ≤ now - b.windowStart
      · by_cases hcount : 1 = threshold <;>
          simp [Function.iterate_succ_apply, access, countEvent, maybeReset, BpfHash.modify,
            hlookup, hmem, hover, hcount]
      · by_cases hcount : b.count + 1 = threshold <;>
          simp [Function.iterate_succ_apply, access, countEvent, maybeReset, BpfHash.modify,
            hlookup, hmem, hover, hcount]

/-- `struct anomaly_alert` -/
structure AnomalyAlert where
  ts : UInt64
  pid : UInt32
  agentId : UInt32
  kind : UInt8
  rate : UInt64
deriving DecidableEq

/-- The three tracepoints. -/
inductive Program
  | sysEnter
  | kprobeExecve
  | kprobeTcpConnect
deriving DecidableEq

/-- `ANOM_KIND_*` -/
def Program.kind : Program → UInt8
  | .sysEnter => 1
  | .kprobeExecve => 2
  | .kprobeTcpConnect => 3

/-- `THRESH_*` -/
def Program.threshold : Program → UInt64
  | .sysEnter => 10000
  | .kprobeExecve => 50
  | .kprobeTcpConnect => 100

/-- `max_entries` of the program's counters -/
def Program.maxEntries : Program → Nat
  | .sysEnter => 8192
  | .kprobeExecve => 1024
  | .kprobeTcpConnect => 1024

/-- The maps of the object, and what userspace finds on its ring buffer. -/
structure Guard where
  syscallRate : BpfHash RateBucket
  execveRate : BpfHash RateBucket
  connectRate : BpfHash RateBucket
  agentProcs : BpfHash UInt32
  anomalyAlert : List AnomalyAlert

/-- One event at a tracepoint: who, when, and the time read by `emit_alert` where the ring
buffer has room. -/
structure Probe where
  pid : UInt32
  now : UInt64
  reserved : Option UInt64

/-- An event, or the agent monitor mirrors its table. -/
inductive Event
  | probe (prog : Program) (p : Probe)
  | mirror (procs : BpfHash UInt32)

namespace Guard

def boot : Guard := ⟨∅, ∅, ∅, ∅, []⟩

def rate (g : Guard) : Program → BpfHash RateBucket
  | .sysEnter => g.syscallRate
  | .kprobeExecve => g.execveRate
  | .kprobeTcpConnect => g.connectRate

def setRate (g : Guard) (m : BpfHash RateBucket) : Program → Guard
  | .sysEnter => { g with syscallRate := m }
  | .kprobeExecve => { g with execveRate := m }
  | .kprobeTcpConnect => { g with connectRate := m }

end Guard

/-- Resolve the agent id of a task; 0 if untracked. -/
def agentOfPid (agentProcs : BpfHash UInt32) (pid : UInt32) : UInt32 :=
  (agentProcs.lookup pid).getD 0

namespace Guard

/-- Pushes an alert where the ring buffer has room. -/
def emitAlert (g : Guard) (kind : UInt8) (pid agentId : UInt32) (rate : UInt64)
    (reserved : Option UInt64) : Guard :=
  match reserved with
  | none => g
  | some ts => { g with anomalyAlert := g.anomalyAlert ++ [⟨ts, pid, agentId, kind, rate⟩] }

/-- Count the event under the key, and alert. -/
def observe (g : Guard) (prog : Program) (key : UInt32) (p : Probe) : Guard :=
  let (m, crossed) := countEvent prog.maxEntries prog.threshold (g.rate prog) key p.now
  let g := g.setRate m prog
  match crossed with
  | none => g
  | some rate => g.emitAlert prog.kind p.pid (agentOfPid g.agentProcs p.pid) rate p.reserved

/-- `tracepoint/raw_syscalls/sys_enter` -/
def sysEnter (g : Guard) (p : Probe) : Guard := g.observe .sysEnter p.pid p

/-- `kprobe/__x64_sys_execve` -/
def kprobeExecve (g : Guard) (p : Probe) : Guard :=
  let agentId := agentOfPid g.agentProcs p.pid
  if agentId = 0 then g else g.observe .kprobeExecve agentId p

/-- `kprobe/tcp_v4_connect` -/
def kprobeTcpConnect (g : Guard) (p : Probe) : Guard :=
  let agentId := agentOfPid g.agentProcs p.pid
  if agentId = 0 then g else g.observe .kprobeTcpConnect agentId p

def step (g : Guard) : Event → Guard
  | .mirror procs => { g with agentProcs := procs }
  | .probe .sysEnter p => g.sysEnter p
  | .probe .kprobeExecve p => g.kprobeExecve p
  | .probe .kprobeTcpConnect p => g.kprobeTcpConnect p

end Guard

/-! ## The history -/

/-- The key an event counts under, if it counts. -/
def Program.keyOf (prog : Program) (agentProcs : BpfHash UInt32) (pid : UInt32) : Option UInt32 :=
  match prog with
  | .sysEnter => some pid
  | _ => if agentOfPid agentProcs pid = 0 then none else some (agentOfPid agentProcs pid)

/-- A window covers what comes less than `WINDOW_NS` after it opened. -/
def covers (start now : UInt64) : Bool := decide (now - start < windowNs)

/-- The times of a key's events. -/
def timesOf (key : UInt32) (hits : List (UInt32 × UInt64)) : List UInt64 :=
  (hits.filter fun h => h.1 = key).map Prod.snd

/-- The first `max` keys that came. -/
def admitted (maxEntries : Nat) (hits : List (UInt32 × UInt64)) : List UInt32 :=
  (hits.map Prod.fst).reverse.dedup.reverse.take maxEntries

/-- The window a key is in. -/
def windowOf (key : UInt32) (hits : List (UInt32 × UInt64)) : List UInt64 :=
  Tumbling.window covers (timesOf key hits)

/-- What has been seen: all the events of each program, and the alerts they call for. -/
structure Watched where
  agentProcs : BpfHash UInt32
  hits : Program → List (UInt32 × UInt64)
  alerts : List AnomalyAlert

namespace Watched

def boot : Watched := ⟨∅, fun _ => [], []⟩

/-- The alert of an event: its key is among those admitted, its window now has as many events
as the threshold says, and the ring buffer has room. -/
def alert (w : Watched) (prog : Program) (key : UInt32) (p : Probe) : Option AnomalyAlert :=
  if key ∈ admitted prog.maxEntries (w.hits prog) ∧
      UInt64.ofNat (windowOf key (w.hits prog ++ [(key, p.now)])).length = prog.threshold then
    p.reserved.map fun ts =>
      ⟨ts, p.pid, agentOfPid w.agentProcs p.pid, prog.kind, prog.threshold⟩
  else none

def step (w : Watched) : Event → Watched
  | .mirror procs => { w with agentProcs := procs }
  | .probe prog p =>
      match prog.keyOf w.agentProcs p.pid with
      | none => w
      | some key =>
          { w with
            hits := Function.update w.hits prog (w.hits prog ++ [(key, p.now)])
            alerts := w.alerts ++ (w.alert prog key p).toList }

end Watched

/-! ## Counters and history -/

/-- The counters of a program are what its events say. -/
structure Counts (maxEntries : Nat) (m : BpfHash RateBucket) (hits : List (UInt32 × UInt64)) :
    Prop where
  keys : m.keys.length = (admitted maxEntries hits).length
  lookup : ∀ key, m.lookup key =
    if key ∈ admitted maxEntries hits then
      (windowOf key hits).head?.map fun start =>
        ⟨UInt64.ofNat (windowOf key hits).length, start⟩
    else none

theorem timesOf_append_self (key : UInt32) (hits : List (UInt32 × UInt64)) (now : UInt64) :
    timesOf key (hits ++ [(key, now)]) = timesOf key hits ++ [now] := by
  simp [timesOf]

theorem timesOf_append_of_ne {key other : UInt32} (h : other ≠ key)
    (hits : List (UInt32 × UInt64)) (now : UInt64) :
    timesOf key (hits ++ [(other, now)]) = timesOf key hits := by
  simp [timesOf, h]

theorem timesOf_ne_nil {key : UInt32} {hits : List (UInt32 × UInt64)}
    (h : key ∈ hits.map Prod.fst) : timesOf key hits ≠ [] := by
  obtain ⟨⟨k, now⟩, hmem, rfl⟩ := List.mem_map.mp h
  intro hnil
  have : now ∈ timesOf k hits := by
    simp only [timesOf, List.mem_map, List.mem_filter]
    exact ⟨(k, now), ⟨hmem, by simp⟩, rfl⟩
  rw [hnil] at this
  exact absurd this List.not_mem_nil

theorem windowOf_append_self (key : UInt32) (hits : List (UInt32 × UInt64)) (now : UInt64) :
    windowOf key (hits ++ [(key, now)]) = Tumbling.extend covers (windowOf key hits) now := by
  rw [windowOf, timesOf_append_self, Tumbling.window_append_singleton]
  rfl

/-- The keys that came, each once, in the order they came. -/
theorem firsts_append (hits : List (UInt32 × UInt64)) (key : UInt32) (now : UInt64) :
    ((hits ++ [(key, now)]).map Prod.fst).reverse.dedup.reverse =
      if key ∈ hits.map Prod.fst then (hits.map Prod.fst).reverse.dedup.reverse
      else (hits.map Prod.fst).reverse.dedup.reverse ++ [key] := by
  rw [List.map_append, List.reverse_append]
  by_cases h : key ∈ hits.map Prod.fst
  · rw [if_pos h]
    simp [List.dedup_cons_of_mem (List.mem_reverse.mpr h)]
  · rw [if_neg h]
    simp [List.dedup_cons_of_notMem (mt List.mem_reverse.mp h)]

theorem mem_of_mem_admitted {maxEntries : Nat} {key : UInt32} {hits : List (UInt32 × UInt64)}
    (h : key ∈ admitted maxEntries hits) : key ∈ hits.map Prod.fst := by
  have h := List.mem_of_mem_take h
  simpa using h

/-- A key that came and was not admitted found the map full. -/
theorem admitted_full {maxEntries : Nat} {key : UInt32} {hits : List (UInt32 × UInt64)}
    (hcame : key ∈ hits.map Prod.fst) (h : key ∉ admitted maxEntries hits) :
    (admitted maxEntries hits).length = maxEntries := by
  rw [admitted, List.length_take, Nat.min_eq_left]
  by_contra hlt
  rw [admitted, List.take_of_length_le (by omega)] at h
  exact h (by simpa using hcame)

/-- A new key is admitted while the map has room, and nothing else changes. -/
theorem admitted_append (maxEntries : Nat) (hits : List (UInt32 × UInt64)) (key : UInt32)
    (now : UInt64) :
    admitted maxEntries (hits ++ [(key, now)]) =
      if key ∉ admitted maxEntries hits ∧ (admitted maxEntries hits).length < maxEntries then
        admitted maxEntries hits ++ [key]
      else admitted maxEntries hits := by
  by_cases hcame : key ∈ hits.map Prod.fst
  · have hsame : admitted maxEntries (hits ++ [(key, now)]) = admitted maxEntries hits := by
      rw [admitted, firsts_append, if_pos hcame]
      rfl
    rw [hsame]
    split
    · rename_i h
      have := admitted_full hcame h.1
      omega
    · rfl
  · have hnew : key ∉ admitted maxEntries hits := fun h => hcame (mem_of_mem_admitted h)
    rw [admitted, firsts_append, if_neg hcame, List.take_append]
    by_cases hroom : (admitted maxEntries hits).length < maxEntries
    · rw [if_pos ⟨hnew, hroom⟩]
      rw [admitted, List.length_take] at hroom
      have hlt : ((hits.map Prod.fst).reverse.dedup.reverse).length < maxEntries := by omega
      rw [List.take_of_length_le (l := [key]) (by rw [List.length_singleton]; omega)]
      rfl
    · rw [if_neg fun h => hroom h.2]
      rw [admitted, List.length_take] at hroom
      rw [Nat.sub_eq_zero_of_le (by omega), List.take_zero, List.append_nil]
      rfl

theorem Counts.boot (maxEntries : Nat) : Counts maxEntries ∅ [] where
  keys := by simp [admitted]
  lookup key := by simp [admitted]

/-- The new bucket of a key whose window is `w`. -/
theorem extend_bucket {w : List UInt64} {start : UInt64} (hw : w.head? = some start)
    (now : UInt64) :
    let reset := maybeReset ⟨UInt64.ofNat w.length, start⟩ now
    (Tumbling.extend covers w now).head?.map
        (fun s => RateBucket.mk (UInt64.ofNat (Tumbling.extend covers w now).length) s) =
      some { reset with count := reset.count + 1 } := by
  cases w with
  | nil => exact absurd hw (by simp)
  | cons first rest =>
      obtain rfl : first = start := by simpa using hw
      by_cases hcovers : covers first now = true
      · have hin : ¬ windowNs ≤ now - first := by simpa [covers] using hcovers
        rw [Tumbling.extend, if_pos hcovers, maybeReset, if_neg hin]
        simp [UInt64.ofNat_add]
      · have hout : windowNs ≤ now - first := by simpa [covers] using hcovers
        rw [Tumbling.extend, if_neg hcovers, maybeReset, if_pos hout]
        simp

theorem windowOf_ne_nil {maxEntries : Nat} {key : UInt32} {hits : List (UInt32 × UInt64)}
    (h : key ∈ admitted maxEntries hits) : windowOf key hits ≠ [] :=
  Tumbling.window_ne_nil covers (timesOf_ne_nil (mem_of_mem_admitted h))

theorem windowOf_append_of_ne {key other : UInt32} (h : other ≠ key)
    (hits : List (UInt32 × UInt64)) (now : UInt64) :
    windowOf key (hits ++ [(other, now)]) = windowOf key hits := by
  rw [windowOf, timesOf_append_of_ne h]
  rfl

/-- The first window of a key that finds room. -/
theorem windowOf_append_of_room {maxEntries : Nat} {key : UInt32} {hits : List (UInt32 × UInt64)}
    (hnew : key ∉ admitted maxEntries hits) (hroom : (admitted maxEntries hits).length < maxEntries)
    (now : UInt64) : windowOf key (hits ++ [(key, now)]) = [now] := by
  have hnil : timesOf key hits = [] := by
    simp only [timesOf, List.map_eq_nil_iff, List.filter_eq_nil_iff]
    rintro ⟨k, t⟩ hmem hk
    have hcame : key ∈ hits.map Prod.fst := List.mem_map.mpr ⟨(k, t), hmem, of_decide_eq_true hk⟩
    have := admitted_full hcame hnew
    omega
  rw [windowOf_append_self, windowOf, hnil]
  rfl

/-- One event of a key that is counted. -/
theorem Counts.count_known {maxEntries : Nat} {m : BpfHash RateBucket}
    {hits : List (UInt32 × UInt64)} (h : Counts maxEntries m hits) {key : UInt32}
    (hin : key ∈ admitted maxEntries hits) (threshold now : UInt64) :
    Counts maxEntries (countEvent maxEntries threshold m key now).1 (hits ++ [(key, now)]) ∧
      (countEvent maxEntries threshold m key now).2 =
        if UInt64.ofNat (windowOf key (hits ++ [(key, now)])).length = threshold then
          some threshold
        else none := by
  obtain ⟨start, hstart⟩ : ∃ start, (windowOf key hits).head? = some start := by
    cases hw : windowOf key hits with
    | nil => exact absurd hw (windowOf_ne_nil hin)
    | cons start rest => exact ⟨start, rfl⟩
  have hlookup : m.lookup key = some ⟨UInt64.ofNat (windowOf key hits).length, start⟩ := by
    rw [h.lookup, if_pos hin, hstart]
    rfl
  have hmem : key ∈ m := AList.lookup_isSome.mp (by rw [hlookup]; rfl)
  have hadm : admitted maxEntries (hits ++ [(key, now)]) = admitted maxEntries hits := by
    rw [admitted_append, if_neg fun hnew => hnew.1 hin]
  have hbucket := extend_bucket hstart now
  rw [← windowOf_append_self] at hbucket
  simp only [countEvent, hlookup]
  refine ⟨⟨?_, fun other => ?_⟩, ?_⟩
  · rw [AList.keys_insert, List.length_cons, List.length_erase_of_mem (AList.mem_keys.mp hmem),
      hadm, ← h.keys]
    have := List.length_pos_of_mem (AList.mem_keys.mp hmem)
    omega
  · rw [hadm]
    by_cases hother : other = key
    · subst hother
      rw [AList.lookup_insert, if_pos hin, hbucket]
    · rw [AList.lookup_insert_ne hother, h.lookup, windowOf_append_of_ne (Ne.symm hother)]
  · obtain ⟨s, -, hs⟩ := Option.map_eq_some_iff.mp hbucket
    have hcount := congrArg RateBucket.count hs
    dsimp only at hcount
    rw [hcount]
    split
    · rename_i heq
      rw [heq]
    · rfl

/-- One event of a key that is not. -/
theorem Counts.count_new {maxEntries : Nat} {m : BpfHash RateBucket}
    {hits : List (UInt32 × UInt64)} (h : Counts maxEntries m hits) {key : UInt32}
    (hnew : key ∉ admitted maxEntries hits) (threshold now : UInt64) :
    Counts maxEntries (countEvent maxEntries threshold m key now).1 (hits ++ [(key, now)]) ∧
      (countEvent maxEntries threshold m key now).2 = none := by
  have hlookup : m.lookup key = none := by rw [h.lookup, if_neg hnew]
  have hmem : key ∉ m := AList.lookup_eq_none.mp hlookup
  simp only [countEvent, hlookup, BpfHash.updateNoExist, if_neg hmem, h.keys, and_true]
  by_cases hroom : (admitted maxEntries hits).length < maxEntries
  · have hadm : admitted maxEntries (hits ++ [(key, now)]) = admitted maxEntries hits ++ [key] := by
      rw [admitted_append, if_pos ⟨hnew, hroom⟩]
    rw [if_pos hroom]
    refine ⟨?_, fun other => ?_⟩
    · rw [AList.keys_insert, List.length_cons, List.erase_of_not_mem (mt AList.mem_keys.mpr hmem),
        hadm, List.length_append, h.keys, List.length_singleton]
    · by_cases hother : other = key
      · subst hother
        rw [AList.lookup_insert, hadm, if_pos (by simp), windowOf_append_of_room hnew hroom]
        rfl
      · rw [AList.lookup_insert_ne hother, h.lookup, windowOf_append_of_ne (Ne.symm hother), hadm]
        simp [hother]
  · have hadm : admitted maxEntries (hits ++ [(key, now)]) = admitted maxEntries hits := by
      rw [admitted_append, if_neg fun hboth => hroom hboth.2]
    rw [if_neg hroom]
    refine ⟨by rw [hadm, h.keys], fun other => ?_⟩
    by_cases hother : other = key
    · subst hother
      rw [h.lookup, hadm, if_neg hnew, if_neg hnew]
    · rw [h.lookup, windowOf_append_of_ne (Ne.symm hother), hadm]

/-! ## The guard and what it watches -/

/-- The guard's state is what has been seen. -/
structure Refines (g : Guard) (w : Watched) : Prop where
  agentProcs : g.agentProcs = w.agentProcs
  counts : ∀ prog : Program, Counts prog.maxEntries (g.rate prog) (w.hits prog)
  alerts : g.anomalyAlert = w.alerts

theorem refines_boot : Refines Guard.boot Watched.boot where
  agentProcs := rfl
  counts prog := by cases prog <;> exact Counts.boot _
  alerts := rfl

namespace Guard

@[simp] theorem rate_setRate_self (g : Guard) (m : BpfHash RateBucket) (prog : Program) :
    (g.setRate m prog).rate prog = m := by
  cases prog <;> rfl

theorem rate_setRate_of_ne (g : Guard) (m : BpfHash RateBucket) {prog other : Program}
    (h : other ≠ prog) : (g.setRate m prog).rate other = g.rate other := by
  cases prog <;> cases other <;> first | rfl | exact absurd rfl h

@[simp] theorem agentProcs_setRate (g : Guard) (m : BpfHash RateBucket) (prog : Program) :
    (g.setRate m prog).agentProcs = g.agentProcs := by
  cases prog <;> rfl

@[simp] theorem anomalyAlert_setRate (g : Guard) (m : BpfHash RateBucket) (prog : Program) :
    (g.setRate m prog).anomalyAlert = g.anomalyAlert := by
  cases prog <;> rfl

@[simp] theorem rate_emitAlert (g : Guard) (kind : UInt8) (pid agentId : UInt32) (r : UInt64)
    (reserved : Option UInt64) (prog : Program) :
    (g.emitAlert kind pid agentId r reserved).rate prog = g.rate prog := by
  cases reserved <;> cases prog <;> rfl

@[simp] theorem agentProcs_emitAlert (g : Guard) (kind : UInt8) (pid agentId : UInt32)
    (r : UInt64) (reserved : Option UInt64) :
    (g.emitAlert kind pid agentId r reserved).agentProcs = g.agentProcs := by
  cases reserved <;> rfl

theorem anomalyAlert_emitAlert (g : Guard) (kind : UInt8) (pid agentId : UInt32) (r : UInt64)
    (reserved : Option UInt64) :
    (g.emitAlert kind pid agentId r reserved).anomalyAlert =
      g.anomalyAlert ++ (reserved.map fun ts => ⟨ts, pid, agentId, kind, r⟩).toList := by
  cases reserved <;> simp [emitAlert]

/-- An event at a tracepoint is counted under its key, if it has one. -/
theorem step_probe (g : Guard) (prog : Program) (p : Probe) :
    g.step (.probe prog p) =
      match prog.keyOf g.agentProcs p.pid with
      | none => g
      | some key => g.observe prog key p := by
  cases prog with
  | sysEnter => rfl
  | kprobeExecve =>
      simp only [step, kprobeExecve, Program.keyOf]
      split <;> rfl
  | kprobeTcpConnect =>
      simp only [step, kprobeTcpConnect, Program.keyOf]
      split <;> rfl

end Guard

/-- One event keeps the counters of its program what the events say, and meets the threshold
when its alert is called for. -/
theorem Counts.countEvent {maxEntries : Nat} {m : BpfHash RateBucket}
    {hits : List (UInt32 × UInt64)} (h : Counts maxEntries m hits) (threshold : UInt64)
    (key : UInt32) (now : UInt64) :
    Counts maxEntries (countEvent maxEntries threshold m key now).1 (hits ++ [(key, now)]) ∧
      (countEvent maxEntries threshold m key now).2 =
        if key ∈ admitted maxEntries hits ∧
            UInt64.ofNat (windowOf key (hits ++ [(key, now)])).length = threshold then
          some threshold
        else none := by
  by_cases hin : key ∈ admitted maxEntries hits
  · have hknown := h.count_known hin threshold now
    simpa only [hin, true_and] using hknown
  · have hnew := h.count_new hin threshold now
    simpa only [hin, false_and, if_false] using hnew

/-- An event counted under its key keeps the guard what has been seen. -/
theorem refines_observe {g : Guard} {w : Watched} (h : Refines g w) (prog : Program)
    (key : UInt32) (p : Probe) :
    Refines (g.observe prog key p)
      { w with
        hits := Function.update w.hits prog (w.hits prog ++ [(key, p.now)])
        alerts := w.alerts ++ (w.alert prog key p).toList } := by
  obtain ⟨hcounts, hcrossed⟩ :=
    (h.counts prog).countEvent prog.threshold key p.now
  have hrates : ∀ (g' : Guard),
      (∀ other, g'.rate other = (g.setRate
        (countEvent prog.maxEntries prog.threshold (g.rate prog) key p.now).1 prog).rate other) →
      ∀ other : Program, Counts other.maxEntries (g'.rate other)
        (Function.update w.hits prog (w.hits prog ++ [(key, p.now)]) other) := by
    intro g' hg' other
    rw [hg']
    by_cases hother : other = prog
    · subst hother
      rw [Guard.rate_setRate_self, Function.update_self]
      exact hcounts
    · rw [Guard.rate_setRate_of_ne g _ hother, Function.update_of_ne hother]
      exact h.counts other
  rw [Guard.observe]
  by_cases hcalled : key ∈ admitted prog.maxEntries (w.hits prog) ∧
      UInt64.ofNat (windowOf key (w.hits prog ++ [(key, p.now)])).length = prog.threshold
  · rw [if_pos hcalled] at hcrossed
    simp only [hcrossed]
    refine ⟨by simpa using h.agentProcs, hrates _ (by simp), ?_⟩
    rw [Guard.anomalyAlert_emitAlert, Guard.anomalyAlert_setRate, Guard.agentProcs_setRate,
      h.alerts, h.agentProcs, Watched.alert, if_pos hcalled]
  · rw [if_neg hcalled] at hcrossed
    simp only [hcrossed]
    refine ⟨by simpa using h.agentProcs, hrates _ (fun _ => rfl), ?_⟩
    rw [Guard.anomalyAlert_setRate, h.alerts, Watched.alert, if_neg hcalled]
    simp

/-- One event keeps the guard what has been seen. -/
theorem refines_step {g : Guard} {w : Watched} (e : Event) (h : Refines g w) :
    Refines (g.step e) (w.step e) := by
  cases e with
  | mirror procs =>
      refine ⟨rfl, fun prog => ?_, h.alerts⟩
      cases prog
      · exact h.counts .sysEnter
      · exact h.counts .kprobeExecve
      · exact h.counts .kprobeTcpConnect
  | probe prog p =>
      rw [Guard.step_probe, Watched.step, h.agentProcs]
      cases prog.keyOf w.agentProcs p.pid with
      | none => exact h
      | some key => exact refines_observe h prog key p

theorem refines (es : List Event) :
    Refines (Run.after Guard.step Guard.boot es) (Run.after Watched.step Watched.boot es) :=
  Run.related Guard.step (fun _ _ e => refines_step e) refines_boot es

/-- Of events that are handled one at a time, the guard raises exactly the alerts that the history
of each key calls for. -/
theorem alerts_eq (es : List Event) :
    (Run.after Guard.step Guard.boot es).anomalyAlert =
      (Run.after Watched.step Watched.boot es).alerts :=
  (refines es).alerts

/-! ## Several CPUs -/

/-- An event that came, and what its program does next. -/
structure Handling where
  key : UInt32
  now : UInt64
  next : Access

/-- The map of a program, and all the events that came to it. -/
structure Cpus where
  map : BpfHash RateBucket
  came : List Handling

/-- An event comes, or the program of one that came makes its next access. -/
inductive Turn
  | come (key : UInt32) (now : UInt64)
  | access (i : Nat)

def Cpus.step (maxEntries : Nat) (threshold : UInt64) (s : Cpus) : Turn → Cpus
  | .come key now => { s with came := s.came ++ [⟨key, now, .lookup⟩] }
  | .access i =>
      match s.came[i]? with
      | none => s
      | some h =>
          let (map, next) := access maxEntries threshold h.key h.now s.map h.next
          { map := map, came := s.came.set i { h with next := next } }

/-- The event has been counted. -/
def Access.counted : Access → Bool
  | .compare => true
  | .alert => true
  | .done _ => true
  | _ => false

/-- The event has met the threshold. -/
def Access.alerts : Access → Bool
  | .alert => true
  | .done (some _) => true
  | _ => false

/-- The count that the map shows for a key. -/
def shown (m : BpfHash RateBucket) (key : UInt32) : Nat :=
  ((m.lookup key).map fun b => b.count.toNat).getD 0

/-- The events of a key that have been counted. -/
def Cpus.counted (s : Cpus) (key : UInt32) : Nat :=
  s.came.countP fun h => h.key == key && h.next.counted

@[simp] theorem shown_modify_of_ne (m : BpfHash RateBucket) {key other : UInt32}
    (h : other ≠ key) (f : RateBucket → RateBucket) :
    shown (m.modify key f) other = shown m other := by
  unfold BpfHash.modify
  cases m.lookup key with
  | none => rfl
  | some b => rw [shown, AList.lookup_insert_ne h, shown]

theorem shown_modify_le {m : BpfHash RateBucket} {key : UInt32} {f : RateBucket → RateBucket}
    {n : Nat} (hf : ∀ b, (f b).count.toNat ≤ b.count.toNat + n) :
    shown (m.modify key f) key ≤ shown m key + n := by
  unfold BpfHash.modify
  cases hlookup : m.lookup key with
  | none => simp [shown, hlookup]
  | some b => simpa [shown, hlookup] using hf b

/-- An access leaves the counts of other keys alone. -/
theorem shown_access_of_ne (maxEntries : Nat) (threshold : UInt64) {key other : UInt32}
    (hne : other ≠ key) (now : UInt64) (m : BpfHash RateBucket) (a : Access) :
    shown (access maxEntries threshold key now m a).1 other = shown m other := by
  cases a with
  | create =>
      simp only [access, BpfHash.updateNoExist]
      split_ifs
      · rfl
      · rw [shown, AList.lookup_insert_ne hne, shown]
      · rfl
  | clear => exact shown_modify_of_ne m hne _
  | reopen => exact shown_modify_of_ne m hne _
  | add => exact shown_modify_of_ne m hne _
  | check => cases hlookup : m.lookup key <;> simp [access, hlookup]
  | compare => cases hlookup : m.lookup key <;> simp [access, hlookup]
  | _ => rfl

/-- An access adds to the count of its key no more than its event. -/
theorem shown_access_le (maxEntries : Nat) (threshold : UInt64) (key : UInt32) (now : UInt64)
    (m : BpfHash RateBucket) (a : Access) :
    shown (access maxEntries threshold key now m a).1 key + a.counted.toNat ≤
      shown m key + (access maxEntries threshold key now m a).2.counted.toNat := by
  cases a with
  | lookup => simp [access, Access.counted]
  | create =>
      simp only [access, BpfHash.updateNoExist]
      split_ifs <;> simp [shown, Access.counted]
  | check => cases hlookup : m.lookup key <;> simp [access, hlookup, Access.counted]
  | clear => exact shown_modify_le (n := 0) fun b => by simp
  | reopen => exact shown_modify_le (n := 0) fun b => by simp
  | add =>
      refine shown_modify_le (n := 1) fun b => ?_
      rw [UInt64.toNat_add]
      exact Nat.mod_le _ _
  | compare =>
      cases hlookup : m.lookup key with
      | none => simp [access, hlookup, Access.counted]
      | some b =>
          by_cases hcount : b.count = threshold <;>
            simp [access, hlookup, hcount, Access.counted]
  | alert => simp [access, Access.counted]
  | done rate => simp [access, Access.counted]

/-- An event meets the threshold when that is the count shown. -/
theorem shown_of_alerts {maxEntries : Nat} {threshold : UInt64} {key : UInt32} {now : UInt64}
    {m : BpfHash RateBucket} {a : Access} (hbefore : a.alerts = false)
    (h : (access maxEntries threshold key now m a).2.alerts = true) :
    shown m key = threshold.toNat := by
  cases a with
  | lookup =>
      simp only [access] at h
      split_ifs at h <;> cases h
  | check =>
      cases hlookup : m.lookup key with
      | none =>
          simp only [access, hlookup] at h
          cases h
      | some b =>
          simp only [access, hlookup] at h
          split_ifs at h <;> cases h
  | compare =>
      cases hlookup : m.lookup key with
      | none =>
          simp only [access, hlookup] at h
          cases h
      | some b =>
          simp only [access, hlookup] at h
          split_ifs at h with hcount
          · simp [shown, hlookup, hcount]
          · cases h
  | alert => cases hbefore
  | done rate =>
      have hsame : Access.alerts (.done rate) = true := h
      rw [hbefore] at hsame
      cases hsame
  | _ => cases h

theorem counted_access (maxEntries : Nat) (threshold : UInt64) (key : UInt32) (now : UInt64)
    (m : BpfHash RateBucket) {a : Access} (h : a.counted = true) :
    (access maxEntries threshold key now m a).2.counted = true := by
  cases a with
  | compare =>
      cases hlookup : m.lookup key with
      | none => simp [access, hlookup, Access.counted]
      | some b =>
          by_cases hcount : b.count = threshold <;>
            simp [access, hlookup, hcount, Access.counted]
  | alert => rfl
  | done rate => rfl
  | _ => cases h

/-- What an access changes in the number of events that have been counted. -/
theorem counted_set {s : Cpus} {i : Nat} {h : Handling} (hi : s.came[i]? = some h)
    (map : BpfHash RateBucket) (next : Access) (key : UInt32) :
    (Cpus.mk map (s.came.set i { h with next := next })).counted key +
        (h.key == key && h.next.counted).toNat =
      s.counted key + (h.key == key && next.counted).toNat := by
  obtain ⟨hlt, hget⟩ := List.getElem?_eq_some_iff.mp hi
  have hpos : (h.key == key && h.next.counted).toNat ≤ s.counted key := by
    cases hp : h.key == key && h.next.counted with
    | false => exact Nat.zero_le _
    | true => exact List.countP_pos_iff.mpr ⟨h, hget ▸ List.getElem_mem hlt, hp⟩
  have hset := List.countP_set (p := fun h => h.key == key && h.next.counted) hlt
    (a := { h with next := next })
  rw [hget] at hset
  rw [Cpus.counted, hset]
  rw [Cpus.counted] at hpos ⊢
  dsimp only
  cases hp : h.key == key && h.next.counted <;> cases hq : h.key == key && next.counted <;>
    rw [hp] at hpos <;> simp only [Bool.toNat_true, Bool.toNat_false, if_true,
      Bool.false_eq_true, if_false] at hpos ⊢ <;> omega

/-- The counts are bounded by the events, and so are those that met the threshold. -/
structure Bounded (threshold : UInt64) (s : Cpus) : Prop where
  shown_le : ∀ key, shown s.map key ≤ s.counted key
  enough : ∀ h ∈ s.came, h.next.alerts = true → threshold.toNat ≤ s.counted h.key

theorem bounded_step (maxEntries : Nat) {threshold : UInt64} (s : Cpus) (t : Turn)
    (h : Bounded threshold s) : Bounded threshold (s.step maxEntries threshold t) := by
  cases t with
  | come key now =>
      have hcounted : ∀ other, (s.step maxEntries threshold (.come key now)).counted other =
          s.counted other := by
        intro other
        simp [Cpus.step, Cpus.counted, Access.counted]
      refine ⟨fun other => ?_, fun h' hmem halerts => ?_⟩
      · rw [hcounted]
        exact h.shown_le other
      · rw [hcounted]
        rcases List.mem_append.mp hmem with hmem | hmem
        · exact h.enough h' hmem halerts
        · rw [List.mem_singleton.mp hmem] at halerts
          cases halerts
  | access i =>
      rw [Cpus.step]
      cases hi : s.came[i]? with
      | none => exact h
      | some handling =>
          dsimp only
          have hle := shown_access_le maxEntries threshold handling.key handling.now s.map
            handling.next
          have hother : ∀ other, other ≠ handling.key → _ := fun other hne =>
            shown_access_of_ne maxEntries threshold hne handling.now s.map handling.next
          have hkept := counted_access maxEntries threshold handling.key handling.now s.map
            (a := handling.next)
          have hmet : handling.next.alerts = false →
              (access maxEntries threshold handling.key handling.now s.map
                handling.next).2.alerts = true →
              shown s.map handling.key = threshold.toNat := shown_of_alerts
          generalize access maxEntries threshold handling.key handling.now s.map handling.next =
            accessed at hle hother hkept hmet ⊢
          obtain ⟨map, next⟩ := accessed
          have hcounted := counted_set hi map next
          have hmono : ∀ other, s.counted other ≤
              (Cpus.mk map (s.came.set i { handling with next := next })).counted other := by
            intro other
            have hset := hcounted other
            cases hold : handling.next.counted with
            | false => rw [hold, Bool.and_false, Bool.toNat_false] at hset; omega
            | true => rw [hold, hkept hold] at hset; omega
          refine ⟨fun other => ?_, fun h' hmem halerts => ?_⟩
          · by_cases hsame : other = handling.key
            · subst hsame
              have hset := hcounted handling.key
              have hbefore := h.shown_le handling.key
              simp only [beq_self_eq_true, Bool.true_and] at hset
              dsimp only at hle ⊢
              omega
            · rw [hother other hsame]
              exact (h.shown_le other).trans (hmono other)
          · rcases List.mem_or_eq_of_mem_set hmem with hold | rfl
            · exact (h.enough h' hold halerts).trans (hmono _)
            · cases hbefore : handling.next.alerts with
              | true =>
                  exact (h.enough handling (List.mem_of_getElem? hi) hbefore).trans (hmono _)
              | false =>
                  rw [← hmet hbefore halerts]
                  exact (h.shown_le handling.key).trans (hmono _)

/-- However the CPUs come between one another, a key is alerted to only after as many of its events
as the threshold says. -/
theorem came_of_alerts (maxEntries : Nat) (threshold : UInt64) (turns : List Turn) {h : Handling}
    (hmem : h ∈ (Run.after (Cpus.step maxEntries threshold) ⟨∅, []⟩ turns).came)
    (halerts : h.next.alerts = true) :
    threshold.toNat ≤ ((Run.after (Cpus.step maxEntries threshold) ⟨∅, []⟩ turns).came.filter
      fun h' => h'.key = h.key).length := by
  have hboot : Bounded threshold ⟨∅, []⟩ :=
    ⟨fun key => by simp [shown], fun h hmem => by cases hmem⟩
  have hrun := Run.invariant_of_step _ (fun s t => bounded_step maxEntries s t) hboot turns
  refine (hrun.enough h hmem halerts).trans ?_
  rw [Cpus.counted, List.countP_eq_length_filter]
  refine List.Sublist.length_le (List.monotone_filter_right _ fun h' hh' => ?_)
  simpa using (Bool.and_eq_true_iff.mp hh').1

/-! ## Bursts -/

/-- The times of a key's events in a run. -/
def seen (prog : Program) (key : UInt32) (es : List Event) : List UInt64 :=
  timesOf key ((Run.after Watched.step Watched.boot es).hits prog)

theorem after_snoc (es : List Event) (e : Event) :
    Run.after Watched.step Watched.boot (es ++ [e]) =
      (Run.after Watched.step Watched.boot es).step e := by
  rw [Run.after_append]
  rfl

/-- An event adds its time to those of the key it counts under. -/
theorem seen_snoc (prog : Program) (key : UInt32) (es : List Event) (e : Event) :
    seen prog key (es ++ [e]) = seen prog key es ∨
      ∃ p, e = .probe prog p ∧
        prog.keyOf (Run.after Watched.step Watched.boot es).agentProcs p.pid = some key ∧
        seen prog key (es ++ [e]) = seen prog key es ++ [p.now] := by
  rw [seen, after_snoc]
  cases e with
  | mirror procs => exact Or.inl rfl
  | probe prog' p =>
      rw [Watched.step]
      cases hkey : prog'.keyOf (Run.after Watched.step Watched.boot es).agentProcs p.pid with
      | none => exact Or.inl rfl
      | some key' =>
          by_cases hprog : prog = prog'
          · subst hprog
            by_cases hsame : key' = key
            · subst hsame
              refine Or.inr ⟨p, rfl, hkey, ?_⟩
              simp [seen, timesOf_append_self]
            · refine Or.inl ?_
              simp [seen, timesOf_append_of_ne hsame]
          · refine Or.inl ?_
            simp [seen, Function.update_of_ne hprog]

/-- The times of a key grow along a run, an event at a time. -/
theorem exists_event_of_prefix {prog : Program} {key : UInt32} {es : List Event}
    {past : List UInt64} (hne : past ≠ []) (h : past <+: seen prog key es) :
    ∃ before p rest, es = before ++ .probe prog p :: rest ∧
      prog.keyOf (Run.after Watched.step Watched.boot before).agentProcs p.pid = some key ∧
      past = seen prog key before ++ [p.now] := by
  induction es using List.reverseRecOn with
  | nil => exact absurd (List.prefix_nil.mp h) hne
  | append_singleton es e ih =>
      have hearlier : past <+: seen prog key es → ∃ before p rest,
          es ++ [e] = before ++ .probe prog p :: rest ∧
          prog.keyOf (Run.after Watched.step Watched.boot before).agentProcs p.pid = some key ∧
          past = seen prog key before ++ [p.now] := by
        intro hpre
        obtain ⟨before, p, rest, rfl, hkey, hpast⟩ := ih hpre
        exact ⟨before, p, rest ++ [e], by simp, hkey, hpast⟩
      rcases seen_snoc prog key es e with hsame | ⟨p, rfl, hkey, hmore⟩
      · rw [hsame] at h
        exact hearlier h
      · rw [hmore] at h
        rcases List.prefix_concat_iff.mp h with hall | hpre
        · exact ⟨es, p, [], rfl, hkey, hall⟩
        · exact hearlier hpre

/-- A key that came is admitted from then on, or never. -/
theorem mem_admitted_of_append {maxEntries : Nat} {key : UInt32} {hits : List (UInt32 × UInt64)}
    (hcame : key ∈ hits.map Prod.fst) (more : List (UInt32 × UInt64))
    (h : key ∈ admitted maxEntries (hits ++ more)) : key ∈ admitted maxEntries hits := by
  by_contra hnew
  have hstays : admitted maxEntries (hits ++ more) = admitted maxEntries hits := by
    clear h
    induction more using List.reverseRecOn with
    | nil => rw [List.append_nil]
    | append_singleton more hit ih =>
        rw [← List.append_assoc, admitted_append, ih, if_neg]
        rintro ⟨-, hroom⟩
        have := admitted_full hcame hnew
        omega
  rw [hstays] at h
  exact hnew h

/-- The events of a program only grow. -/
theorem hits_step (w : Watched) (prog : Program) (e : Event) :
    w.hits prog <+: (w.step e).hits prog := by
  cases e with
  | mirror procs => exact List.prefix_rfl
  | probe prog' p =>
      rw [Watched.step]
      cases prog'.keyOf w.agentProcs p.pid with
      | none => exact List.prefix_rfl
      | some key =>
          by_cases hprog : prog = prog'
          · subst hprog
            simp
          · simp [Function.update_of_ne hprog]

theorem hits_after (w : Watched) (prog : Program) (es : List Event) :
    w.hits prog <+: (Run.after Watched.step w es).hits prog :=
  Run.invariant_of_step Watched.step (I := fun w' => w.hits prog <+: w'.hits prog)
    (fun w' e h => h.trans (hits_step w' prog e)) List.prefix_rfl es

/-- An event that takes a key admitted in the run to its threshold raises an alert. -/
theorem alert_of_reached {prog : Program} {key : UInt32} {before rest : List Event} {p : Probe}
    {ts : UInt64} (hroom : p.reserved = some ts)
    (hadm : key ∈ admitted prog.maxEntries
      ((Run.after Watched.step Watched.boot (before ++ .probe prog p :: rest)).hits prog))
    (hkey : prog.keyOf (Run.after Watched.step Watched.boot before).agentProcs p.pid = some key)
    (hlen : (Tumbling.window covers (seen prog key before ++ [p.now])).length =
      prog.threshold.toNat) :
    (Run.after Guard.step Guard.boot (before ++ [.probe prog p])).anomalyAlert =
      (Run.after Guard.step Guard.boot before).anomalyAlert ++
        [⟨ts, p.pid, agentOfPid (Run.after Guard.step Guard.boot before).agentProcs p.pid,
          prog.kind, prog.threshold⟩] := by
  have href := refines before
  have hcame : key ∈ ((Run.after Watched.step Watched.boot before).hits prog).map Prod.fst := by
    have hne : seen prog key before ≠ [] := by
      intro hnil
      rw [hnil] at hlen
      have hone : (Tumbling.window covers ([] ++ [p.now])).length = 1 := rfl
      rw [hone] at hlen
      cases prog <;> exact absurd hlen (by decide)
    obtain ⟨t, ht⟩ := List.exists_mem_of_ne_nil _ hne
    obtain ⟨⟨k, t⟩, hmem, rfl⟩ := List.mem_map.mp ht
    obtain ⟨hmem, hk⟩ := List.mem_filter.mp hmem
    exact List.mem_map.mpr ⟨(k, t), hmem, of_decide_eq_true hk⟩
  have hin : key ∈ admitted prog.maxEntries
      ((Run.after Watched.step Watched.boot before).hits prog) := by
    rw [Run.after_append] at hadm
    obtain ⟨more, hmore⟩ := hits_after (Run.after Watched.step Watched.boot before) prog
      (.probe prog p :: rest)
    rw [← hmore] at hadm
    exact mem_admitted_of_append hcame more hadm
  rw [(refines _).alerts, after_snoc, Watched.step, hkey, href.alerts, href.agentProcs]
  dsimp only
  rw [Watched.alert, if_pos, hroom]
  · rfl
  · refine ⟨hin, ?_⟩
    rw [windowOf, timesOf_append_self]
    rw [seen] at hlen
    rw [hlen, UInt64.ofNat_toNat]

theorem covers_refl (t : UInt64) : covers t t = true := by
  simp [covers, windowNs]

/-- Handled one at a time, twice the threshold, less one, within a second raises an alert, or was
alerted to less than a window before. -/
theorem exists_alert_of_burst {prog : Program} {key : UInt32} {before burst : List Event}
    {bs : List UInt64}
    (hroom : ∀ p, .probe prog p ∈ before ++ burst → ∃ ts, p.reserved = some ts)
    (hadm : key ∈ admitted prog.maxEntries
      ((Run.after Watched.step Watched.boot (before ++ burst)).hits prog))
    (hseen : seen prog key (before ++ burst) = seen prog key before ++ bs)
    (hburst : Tumbling.Burst covers bs) (hlen : 2 * prog.threshold.toNat ≤ bs.length + 1) :
    ∃ past p rest alert, before ++ burst = past ++ .probe prog p :: rest ∧
      prog.keyOf (Run.after Guard.step Guard.boot past).agentProcs p.pid = some key ∧
      (Run.after Guard.step Guard.boot (past ++ [.probe prog p])).anomalyAlert =
        (Run.after Guard.step Guard.boot past).anomalyAlert ++ [alert] ∧
      ∃ start, covers start p.now = true ∧ ∃ b ∈ bs, covers start b = true := by
  obtain ⟨reached, hpre, hreached, start, hall, b, hb, hcovers⟩ :=
    Tumbling.exists_reached_of_burst covers_refl (seen prog key before)
      (by cases prog <;> decide) hburst hlen
  rw [← hseen] at hpre
  have hne : reached ≠ [] := by
    rintro rfl
    cases prog <;> exact absurd hreached (by decide)
  obtain ⟨past, p, rest, hsplit, hkey, rfl⟩ := exists_event_of_prefix hne hpre
  obtain ⟨ts, hts⟩ := hroom p (by simp [hsplit])
  rw [hsplit] at hadm
  have halert := alert_of_reached hts hadm hkey hreached
  refine ⟨past, p, rest, _, hsplit, ?_, halert, start, hall p.now ?_, b, hb, hcovers⟩
  · rw [(refines past).agentProcs]
    exact hkey
  · rw [Tumbling.window_append_singleton]
    rcases Tumbling.extend_eq covers (Tumbling.window covers (seen prog key past)) p.now with h | h
      <;> simp [h]

theorem hits_replicate {w : Watched} {prog : Program} {p : Probe} {key : UInt32}
    (hkey : prog.keyOf w.agentProcs p.pid = some key) (n : Nat) :
    (Run.after Watched.step w (List.replicate n (.probe prog p))).hits prog =
      w.hits prog ++ List.replicate n (key, p.now) := by
  induction n generalizing w with
  | zero => simp
  | succ n ih =>
      have hstep : (w.step (.probe prog p)).hits prog = w.hits prog ++ [(key, p.now)] := by
        simp [Watched.step, hkey]
      have hprocs : (w.step (.probe prog p)).agentProcs = w.agentProcs := by
        simp [Watched.step, hkey]
      rw [List.replicate_succ, Run.after_cons, ih (by rw [hprocs]; exact hkey), hstep]
      simp [List.replicate_succ]

/-- The monitor knows a task of agent 1. -/
def mirrored : List Event := [.mirror (AList.singleton 7 1)]

/-- The agent starts so many programs at once. -/
def storm (n : Nat) : List Event := List.replicate n (.probe .kprobeExecve ⟨7, 5, some 6⟩)

theorem hits_storm (n : Nat) :
    (Run.after Watched.step Watched.boot (mirrored ++ storm n)).hits .kprobeExecve =
      List.replicate n (1, 5) := by
  have hkey : Program.kprobeExecve.keyOf
      (Run.after Watched.step Watched.boot mirrored).agentProcs 7 = some 1 := by decide
  rw [Run.after_append, storm, hits_replicate hkey]
  rfl

theorem exists_alert_of_burst_storm :
    ∃ past p rest alert, mirrored ++ storm 99 = past ++ .probe .kprobeExecve p :: rest ∧
      Program.kprobeExecve.keyOf (Run.after Guard.step Guard.boot past).agentProcs p.pid = some 1 ∧
      (Run.after Guard.step Guard.boot (past ++ [.probe .kprobeExecve p])).anomalyAlert =
        (Run.after Guard.step Guard.boot past).anomalyAlert ++ [alert] ∧
      ∃ start, covers start p.now = true ∧
        ∃ b ∈ List.replicate 99 5, covers start b = true := by
  refine exists_alert_of_burst ?_ ?_ ?_ (List.pairwise_replicate.mpr (Or.inr (covers_refl 5))) ?_
  · intro p hp
    obtain rfl : p = ⟨7, 5, some 6⟩ := by simpa [mirrored, storm] using hp
    exact ⟨6, rfl⟩
  · rw [hits_storm, admitted, List.map_replicate, List.reverse_replicate,
      List.replicate_dedup (by decide)]
    decide
  · rw [seen, hits_storm, timesOf]
    simp [seen, timesOf, mirrored, Watched.step, Watched.boot]
  · decide

end Kernel

/-
# `Cognos.Memory.AnfsOverlay` — the gate of the file system

`anfs/src/security.rs`, `journal.rs` and the requests of `overlay.rs`.  Each request is checked
against the capabilities of an agent and the restricted paths, and each check leaves an entry in
the audit, of which the last 1024 are kept.  What changes files is written to the journal first.

    check_iff      in any run of grants and checks, who is let through
    audit_run      and what the audit holds of it
    overlay_run    the overlay: as its agent is none that is known, whatever would change a file
                   is refused, and the journal stays empty

`overlay.rs` does nothing on the files themselves yet; its cache is only read.
-/
import Mathlib.Data.List.AList
import Cognos.Lib.Recent
import Cognos.Lib.Run
import Cognos.Lib.Text

namespace AnfsStore

/-! ## Operations and capabilities -/

/-- A VFS operation being checked. -/
inductive FileOp
  | read
  | write
  | create
  | delete
  | rename
  | getAttr
  | setAttr
  deriving DecidableEq

/-- Whether it mutates the file system. -/
def FileOp.isMutating : FileOp → Bool
  | .write | .create | .delete | .rename | .setAttr => true
  | .read | .getAttr => false

/-- A node in the capability lattice. -/
abbrev Capability := String

namespace Capability

def root : Capability := "cognos.root"

def hal : Capability := "cognos.hal"

def security : Capability := "cognos.security"

def anfs : Capability := "cognos.anfs"

end Capability

/-- Which agents hold which capabilities; those of an agent are in no order. -/
structure CapabilityLattice where
  agents : AList fun _ : String => List Capability

namespace CapabilityLattice

def new : CapabilityLattice := ⟨∅⟩

variable (l : CapabilityLattice)

/-- Grant a capability to an agent. -/
def grant (agent : String) (cap : Capability) : CapabilityLattice :=
  ⟨l.agents.insert agent (((l.agents.lookup agent).getD []).insert cap)⟩

/-- The lattice with the agents of COGNOS. -/
def withDefaults : CapabilityLattice :=
  ((((new.grant "cognos.hal" .hal).grant "cognos.hal" .root).grant "cognos.security"
    .security).grant "cognos.anfs" .anfs).grant "cognos.anfs" .hal

def holds (agent : String) (cap : Capability) : Bool :=
  match l.agents.lookup agent with
  | some held => held.contains cap
  | none => false

/-- Whether the agent holds any of them. -/
def holdsAny (agent : String) (caps : List Capability) : Bool :=
  match l.agents.lookup agent with
  | some held => caps.any held.contains
  | none => false

def knows (agent : String) : Bool := (l.agents.lookup agent).isSome

end CapabilityLattice

/-! ## The audit -/

structure AuditEntry where
  ts : Int
  agent : String
  op : FileOp
  path : String
  allowed : Bool
  reason : String

/-- What an entry says of its check. -/
def AuditEntry.told (e : AuditEntry) : Int × String × FileOp × String × Bool :=
  (e.ts, e.agent, e.op, e.path, e.allowed)

/-- The entries in memory, oldest first. -/
structure AuditHandle where
  buffer : List AuditEntry
  capacity : Nat

def AuditHandle.new : AuditHandle := ⟨[], 1024⟩

def AuditHandle.emit (a : AuditHandle) (entry : AuditEntry) : AuditHandle :=
  { a with buffer := Recent.push a.capacity a.buffer entry }

/-! ## Checks -/

inductive SecurityError
  | unknownAgent (agent : String)
  | pathRestricted (path agent : String)

/-- What a check sees of the outside: the time, `HOME` (empty where it is not set), and in which
order a set of capabilities is walked. -/
structure CheckWorld where
  ts : Int
  home : String
  walk : List Capability → List Capability

/-- The capabilities that open a path, any of which will do; none for a path that is not
restricted. -/
def restrictedPathRequirements (home path : String) : Option (List Capability) :=
  let cognosDir := home ++ "/.cognos"
  let sshDir := home ++ "/.ssh"
  if Text.startsWith path cognosDir || path == cognosDir then some [.hal, .anfs]
  else if Text.startsWith path "/etc/cognos/" || path == "/etc/cognos" then some [.hal, .security]
  else if Text.startsWith path sshDir || path == sshDir then some [.security]
  else none

structure AnfsSecurity where
  lattice : CapabilityLattice
  audit : AuditHandle

namespace AnfsSecurity

/-- Whatever the name of the lattice, it is the default one. -/
def new : AnfsSecurity := ⟨.withDefaults, .new⟩

variable (s : AnfsSecurity)

/-- Append an entry on a check. -/
def note (w : CheckWorld) (agent path : String) (op : FileOp) (allowed : Bool) (reason : String) :
    AnfsSecurity :=
  { s with audit := s.audit.emit ⟨w.ts, agent, op, path, allowed, reason⟩ }

/-- Whether the agent may do this to the path. -/
def check (w : CheckWorld) (agent path : String) (op : FileOp) :
    Except SecurityError Unit × AnfsSecurity :=
  if s.lattice.knows agent = false then
    (.error (.unknownAgent agent), s.note w agent path op false "unknown_agent")
  else
    match restrictedPathRequirements w.home path with
    | some required =>
        if s.lattice.holdsAny agent required = false then
          (.error (.pathRestricted path agent), s.note w agent path op false
            ("path_restricted:" ++ String.intercalate "|" (w.walk required)))
        else (.ok (), s.note w agent path op true "default_allow")
    | none => (.ok (), s.note w agent path op true "default_allow")

/-! ## Runs -/

/-- A check, or a grant to an agent. -/
inductive Call
  | grant (agent : String) (cap : Capability)
  | check (w : CheckWorld) (agent path : String) (op : FileOp)

def step (s : AnfsSecurity) : Call → AnfsSecurity
  | .grant agent cap => { s with lattice := s.lattice.grant agent cap }
  | .check w agent path op => (s.check w agent path op).2

/-- The grants the lattice starts with. -/
def defaultGrants : List (String × Capability) :=
  [("cognos.hal", .hal), ("cognos.hal", .root), ("cognos.security", .security),
    ("cognos.anfs", .anfs), ("cognos.anfs", .hal)]

/-- The agent was granted the capability, from the start or since. -/
def Granted (past : List Call) (agent : String) (cap : Capability) : Prop :=
  (agent, cap) ∈ defaultGrants ∨ .grant agent cap ∈ past

/-- What there is to tell of the checks of a run: each with its outcome. -/
def told (s : AnfsSecurity) : List Call → List (Int × String × FileOp × String × Bool)
  | [] => []
  | .grant agent cap :: calls => told (s.step (.grant agent cap)) calls
  | .check w agent path op :: calls =>
      (w.ts, agent, op, path, (s.check w agent path op).1.isOk) ::
        told (s.step (.check w agent path op)) calls

end AnfsSecurity

/-! ## Who is let through -/

namespace CapabilityLattice

variable {l : CapabilityLattice} {agent other : String} {cap held : Capability}

theorem holds_grant : (l.grant agent cap).holds other held = true ↔
    l.holds other held = true ∨ (other, held) = (agent, cap) := by
  simp only [grant, holds]
  by_cases hagent : other = agent
  · subst hagent
    rw [AList.lookup_insert]
    cases l.agents.lookup other with
    | none => simp
    | some caps => simp [List.mem_insert_iff, or_comm]
  · rw [AList.lookup_insert_ne hagent]
    simp [hagent]

theorem knows_grant : (l.grant agent cap).knows other = true ↔
    l.knows other = true ∨ other = agent := by
  simp only [grant, knows]
  by_cases hagent : other = agent
  · subst hagent
    rw [AList.lookup_insert]
    simp
  · rw [AList.lookup_insert_ne hagent]
    simp [hagent]

theorem holdsAny_iff {caps : List Capability} :
    l.holdsAny agent caps = true ↔ ∃ cap ∈ caps, l.holds agent cap = true := by
  simp only [holdsAny, holds]
  cases l.agents.lookup agent with
  | none => simp
  | some held => simp

end CapabilityLattice

namespace AnfsSecurity

variable {s : AnfsSecurity}

/-- The lattice knows what was granted, and the agents it was granted to. -/
structure Knows (past : List Call) (l : CapabilityLattice) : Prop where
  holds : ∀ agent cap, l.holds agent cap = true ↔ Granted past agent cap
  knows : ∀ agent, l.knows agent = true ↔ ∃ cap, Granted past agent cap

theorem knows_new : Knows [] CapabilityLattice.withDefaults where
  holds agent cap := by
    simp only [CapabilityLattice.withDefaults, CapabilityLattice.holds_grant, Granted,
      defaultGrants, List.mem_cons, List.not_mem_nil, or_false]
    have hnone : CapabilityLattice.new.holds agent cap = false := rfl
    rw [hnone]
    tauto
  knows agent := by
    simp only [CapabilityLattice.withDefaults, CapabilityLattice.knows_grant, Granted,
      defaultGrants, List.mem_cons, List.not_mem_nil, or_false, Prod.mk.injEq]
    have hnone : CapabilityLattice.new.knows agent = false := rfl
    rw [hnone]
    constructor
    · rintro (((((h | h) | h) | h) | h) | h)
      · cases h
      · exact ⟨Capability.hal, by tauto⟩
      · exact ⟨Capability.hal, by tauto⟩
      · exact ⟨Capability.security, by tauto⟩
      · exact ⟨Capability.anfs, by tauto⟩
      · exact ⟨Capability.anfs, by tauto⟩
    · rintro ⟨cap, h⟩
      tauto

theorem lattice_check (w : CheckWorld) (agent path : String) (op : FileOp) :
    (s.check w agent path op).2.lattice = s.lattice := by
  rw [check]
  split
  · rfl
  · split
    · split <;> rfl
    · rfl

theorem Knows.step {past : List Call} (h : Knows past s.lattice) (call : Call) :
    Knows (past ++ [call]) (s.step call).lattice := by
  cases call with
  | grant agent cap =>
      refine ⟨fun other held => ?_, fun other => ?_⟩
      · simp only [AnfsSecurity.step, CapabilityLattice.holds_grant, h.holds, Granted,
          List.mem_append, List.mem_singleton, Call.grant.injEq, Prod.mk.injEq]
        tauto
      · simp only [AnfsSecurity.step, CapabilityLattice.knows_grant, h.knows, Granted,
          List.mem_append, List.mem_singleton, Call.grant.injEq]
        constructor
        · rintro (⟨held, hheld⟩ | rfl)
          · exact ⟨held, by tauto⟩
          · exact ⟨cap, by tauto⟩
        · rintro ⟨held, hheld | hheld | ⟨hother, -⟩⟩
          · exact Or.inl ⟨held, Or.inl hheld⟩
          · exact Or.inl ⟨held, Or.inr hheld⟩
          · exact Or.inr hother
  | check w agent path op =>
      have hsame : (s.step (.check w agent path op)).lattice = s.lattice :=
        lattice_check w agent path op
      rw [hsame]
      refine ⟨fun other held => ?_, fun other => ?_⟩
      · simp [h.holds, Granted]
      · simp [h.knows, Granted]

theorem knows_run (past : List Call) : Knows past (Run.after step new past).lattice := by
  induction past using List.reverseRecOn with
  | nil => exact knows_new
  | append_singleton past call ih =>
      rw [Run.after_append]
      exact ih.step call

/-- The restricted paths all have a slash, which a name has not. -/
theorem restricted_name (home : String) {name : String} (h : '/' ∉ name.toList) :
    restrictedPathRequirements home name = none := by
  have hprefix : ∀ dir, '/' ∈ dir.toList → Text.startsWith name dir = false := by
    intro dir hdir
    rw [← Bool.not_eq_true]
    intro hstart
    obtain ⟨post, hpost⟩ := Text.startsWith_iff.mp hstart
    exact h (hpost ▸ List.mem_append_left post hdir)
  have hequal : ∀ dir, '/' ∈ dir.toList → (name == dir) = false := by
    intro dir hdir
    rw [beq_eq_false_iff_ne]
    rintro rfl
    exact h hdir
  have hcognos : '/' ∈ (home ++ "/.cognos").toList := by simp
  have hssh : '/' ∈ (home ++ "/.ssh").toList := by simp
  simp only [restrictedPathRequirements, hprefix _ hcognos, hequal _ hcognos, hprefix _ hssh,
    hequal _ hssh, hprefix "/etc/cognos/" (by decide), hequal "/etc/cognos" (by decide),
    Bool.or_self, Bool.false_eq_true, if_false]

/-- In any run, an agent is let through when it was ever granted something, and for a restricted
path one of the capabilities that open it. -/
theorem check_ok_iff (past : List Call) (w : CheckWorld) (agent path : String) (op : FileOp) :
    ((Run.after step new past).check w agent path op).1 = .ok () ↔
      (∃ cap, Granted past agent cap) ∧
        ∀ required, restrictedPathRequirements w.home path = some required →
          ∃ cap ∈ required, Granted past agent cap := by
  obtain ⟨hholds, hknows⟩ := knows_run past
  have hany : ∀ required, (Run.after step new past).lattice.holdsAny agent required = true ↔
      ∃ cap ∈ required, Granted past agent cap := by
    intro required
    simp only [CapabilityLattice.holdsAny_iff, hholds]
  rw [check]
  by_cases hknown : (Run.after step new past).lattice.knows agent = false
  · rw [if_pos hknown]
    refine iff_of_false (fun h => by cases h) fun h => ?_
    rw [(hknows agent).mpr h.1] at hknown
    cases hknown
  · rw [if_neg hknown]
    rw [Bool.not_eq_false] at hknown
    cases hrequired : restrictedPathRequirements w.home path with
    | none => simpa using (hknows agent).mp hknown
    | some required =>
        dsimp only
        by_cases hopen : (Run.after step new past).lattice.holdsAny agent required = false
        · rw [if_pos hopen]
          refine iff_of_false (fun h => by cases h) fun h => ?_
          rw [(hany required).mpr (h.2 required rfl)] at hopen
          cases hopen
        · rw [if_neg hopen]
          rw [Bool.not_eq_false, hany] at hopen
          refine iff_of_true rfl ⟨(hknows agent).mp hknown, fun other hother => ?_⟩
          obtain rfl := Option.some.inj hother
          exact hopen

/-- In any run, an agent is let through when it was ever granted something, and for a restricted
path one of the capabilities that open it.  For the bare names that the overlay checks, no path
is restricted. -/
theorem check_iff (past : List Call) (w : CheckWorld) (agent path : String) (op : FileOp) :
    (((Run.after step new past).check w agent path op).1 = .ok () ↔
      (∃ cap, Granted past agent cap) ∧
        ∀ required, restrictedPathRequirements w.home path = some required →
          ∃ cap ∈ required, Granted past agent cap) ∧
    ('/' ∉ path.toList →
      (((Run.after step new past).check w agent path op).1 = .ok () ↔
        ∃ cap, Granted past agent cap)) := by
  refine ⟨check_ok_iff past w agent path op, fun hname => ?_⟩
  rw [check_ok_iff, restricted_name w.home hname]
  simp

/-! ## What the audit holds -/

/-- A check leaves one entry, with its outcome. -/
theorem audit_check (w : CheckWorld) (agent path : String) (op : FileOp) :
    ∃ e : AuditEntry, (s.check w agent path op).2.audit = s.audit.emit e ∧
      e.told = (w.ts, agent, op, path, (s.check w agent path op).1.isOk) := by
  rw [check]
  split
  · exact ⟨_, rfl, rfl⟩
  · split
    · split
      · exact ⟨_, rfl, rfl⟩
      · exact ⟨_, rfl, rfl⟩
    · exact ⟨_, rfl, rfl⟩

/-- The audit holds the last entries there were. -/
structure Audits (a : AuditHandle) (history : List (Int × String × FileOp × String × Bool)) :
    Prop where
  capacity : a.capacity = 1024
  buffer : a.buffer.map AuditEntry.told = history.rtake 1024

theorem audits_emit {a : AuditHandle} {history : List (Int × String × FileOp × String × Bool)}
    (h : Audits a history) (e : AuditEntry) : Audits (a.emit e) (history ++ [e.told]) where
  capacity := h.capacity
  buffer := by
    rw [← Recent.push_rtake 1023, ← h.buffer, AuditHandle.emit, h.capacity, Recent.push,
      Recent.push, List.length_map, List.map_append, apply_ite (List.map AuditEntry.told),
      List.map_tail]
    rfl

theorem audits_run {history : List (Int × String × FileOp × String × Bool)}
    (h : Audits s.audit history) (calls : List Call) :
    Audits (Run.after step s calls).audit (history ++ s.told calls) := by
  induction calls generalizing s history with
  | nil => simpa [told] using h
  | cons call calls ih =>
      cases call with
      | grant agent cap => exact ih h
      | check w agent path op =>
          obtain ⟨e, haudit, htold⟩ := s.audit_check w agent path op
          have hnext : Audits (s.step (.check w agent path op)).audit (history ++ [e.told]) := by
            show Audits (s.check w agent path op).2.audit _
            rw [haudit]
            exact audits_emit h e
          rw [htold] at hnext
          simpa [told] using ih hnext

/-- In any run, the audit holds the last 1024 checks with their outcomes, in their order. -/
theorem audit_run (calls : List Call) :
    (Run.after step new calls).audit.buffer.map AuditEntry.told =
      (told new calls).rtake 1024 := by
  have hnew : Audits new.audit [] := ⟨rfl, rfl⟩
  simpa using (audits_run hnew calls).buffer

end AnfsSecurity

/-! ## The journal -/

/-- One record of the journal: a mutating operation. -/
inductive JournalEntry
  | create (path : String) (mode : Nat) (agent : String) (ts : Int)
  | write (path : String) (offset len : UInt64) (agent : String) (ts : Int)
  | delete (path agent : String) (ts : Int)
  | rename (source target agent : String) (ts : Int)

structure Journal where
  entries : List JournalEntry
  sequence : Nat

namespace Journal

def new : Journal := ⟨[], 0⟩

/-- Append an entry: its sequence number, and the journal. -/
def append (j : Journal) (entry : JournalEntry) : Nat × Journal :=
  (j.sequence, ⟨j.entries ++ [entry], j.sequence + 1⟩)

end Journal

/-! ## The overlay -/

/-- What the kernel is told of a file: an empty regular file, for now. -/
structure FileAttr where
  ino : UInt64
  size : Nat := 0
  perm : Nat := 0o644
  nlink : Nat := 1
  uid : Nat := 0
  gid : Nat := 0
  blksize : Nat := 512
  deriving DecidableEq

inductive Reply
  | entry (ttlSecs : Nat) (attr : FileAttr) (generation : Nat)
  | attr (ttlSecs : Nat) (attr : FileAttr)
  | error (errno : Nat)
  | ok
  deriving DecidableEq

def eacces : Nat := 13

def enosys : Nat := 38

/-- What the kernel asks. -/
inductive VfsRequest
  | lookup (parent : UInt64) (name : String)
  | getattr (ino : UInt64)
  | read (ino : UInt64) (offset : Int64) (size : UInt32)
  | write (ino : UInt64) (offset : Int64) (data : List UInt8)
  | create (parent : UInt64) (name : String)
  | unlink (parent : UInt64) (name : String)
  | mkdir (parent : UInt64) (name : String)
  | readdir (ino : UInt64) (offset : Int64)
  | rename (parent : UInt64) (name : String) (newParent : UInt64) (newName : String)

structure AnfsOverlay where
  journal : Journal
  security : AnfsSecurity

namespace AnfsOverlay

def new : AnfsOverlay := ⟨.new, .new⟩

/-- The agent a request comes from: always this one. -/
def agentFor : String := "anfs:default"

def stubAttr (ino : UInt64) : FileAttr := { ino := ino }

variable (o : AnfsOverlay) (w : CheckWorld) (now : Int)

/-- A request that is checked, and answered whatever the outcome. -/
def noted (path : String) (op : FileOp) (reply : Reply) : Reply × AnfsOverlay :=
  (reply, { o with security := (o.security.check w agentFor path op).2 })

/-- A request that is refused by the check, or else written to the journal. -/
def guarded (path : String) (op : FileOp) (entry : JournalEntry) (reply : Reply) :
    Reply × AnfsOverlay :=
  match o.security.check w agentFor path op with
  | (.error _, security) => (.error eacces, { o with security := security })
  | (.ok (), security) => (reply, ⟨(o.journal.append entry).2, security⟩)

def lookup (parent : UInt64) (name : String) : Reply × AnfsOverlay :=
  o.noted w name .getAttr (.entry 1 (stubAttr parent) 0)

def getattr (ino : UInt64) : Reply × AnfsOverlay := o.noted w "." .getAttr (.attr 1 (stubAttr ino))

def read : Reply × AnfsOverlay := o.noted w "." .read (.error enosys)

def write (offset : Int64) (data : List UInt8) : Reply × AnfsOverlay :=
  o.guarded w "." .write
    (.write "." offset.toUInt64 (UInt64.ofNat data.length) agentFor now) (.error enosys)

def create (name : String) : Reply × AnfsOverlay :=
  o.guarded w name .create (.create name 0o644 agentFor now) (.error enosys)

def unlink (name : String) : Reply × AnfsOverlay :=
  o.guarded w name .delete (.delete name agentFor now) (.error enosys)

def mkdir (parent : UInt64) (name : String) : Reply × AnfsOverlay :=
  o.guarded w name .create (.create name 0o755 agentFor now) (.entry 1 (stubAttr parent) 0)

def readdir : Reply × AnfsOverlay := o.noted w "." .getAttr .ok

def rename (name newName : String) : Reply × AnfsOverlay :=
  o.guarded w name .rename (.rename name newName agentFor now) (.error enosys)

def handle : VfsRequest → Reply × AnfsOverlay
  | .lookup parent name => o.lookup w parent name
  | .getattr ino => o.getattr w ino
  | .read _ _ _ => o.read w
  | .write _ offset data => o.write w now offset data
  | .create _ name => o.create w now name
  | .unlink _ name => o.unlink w now name
  | .mkdir parent name => o.mkdir w now parent name
  | .readdir _ _ => o.readdir w
  | .rename _ name _ newName => o.rename w now name newName

end AnfsOverlay

/-- The operation a request is checked for, and the path: a name has no directory with it. -/
def VfsRequest.target : VfsRequest → FileOp × String
  | .lookup _ name => (.getAttr, name)
  | .getattr _ => (.getAttr, ".")
  | .read _ _ _ => (.read, ".")
  | .write _ _ _ => (.write, ".")
  | .create _ name => (.create, name)
  | .unlink _ name => (.delete, name)
  | .mkdir _ name => (.create, name)
  | .readdir _ _ => (.getAttr, ".")
  | .rename _ name _ _ => (.rename, name)

namespace AnfsOverlay

variable {o : AnfsOverlay}

/-- A request as it comes: with the outside it is checked in. -/
structure Arrival where
  w : CheckWorld
  now : Int
  request : VfsRequest

def step (o : AnfsOverlay) (a : Arrival) : AnfsOverlay := (o.handle a.w a.now a.request).2

/-- The agent of the overlay is unknown to its lattice. -/
theorem check_agentFor (h : o.security.lattice = .withDefaults) (w : CheckWorld) (path : String)
    (op : FileOp) : o.security.check w agentFor path op =
      (.error (.unknownAgent agentFor),
        o.security.note w agentFor path op false "unknown_agent") := by
  have hunknown : CapabilityLattice.withDefaults.knows agentFor = false := by decide
  rw [AnfsSecurity.check, h, if_pos hunknown]

/-- A request leaves the refusal of its check and nothing else; what would change files fails. -/
theorem handle_spec (h : o.security.lattice = .withDefaults) (a : Arrival) :
    o.step a = ⟨o.journal, o.security.note a.w agentFor a.request.target.2 a.request.target.1 false
        "unknown_agent"⟩ ∧
      (a.request.target.1.isMutating = true →
        (o.handle a.w a.now a.request).1 = .error eacces) := by
  obtain ⟨w, now, request⟩ := a
  cases request <;>
    simp only [step, handle, lookup, getattr, read, write, create, unlink, mkdir, readdir, rename,
      noted, guarded, VfsRequest.target, check_agentFor h, FileOp.isMutating, implies_true,
      and_self, Bool.false_eq_true, false_imp_iff]

/-- What the audit is told of a request. -/
def refusal (a : Arrival) : Int × String × FileOp × String × Bool :=
  (a.w.ts, agentFor, a.request.target.1, a.request.target.2, false)

/-- The overlay after some requests. -/
structure Refusing (o : AnfsOverlay) (past : List Arrival) : Prop where
  lattice : o.security.lattice = .withDefaults
  journal : o.journal = .new
  audit : AnfsSecurity.Audits o.security.audit (past.map refusal)

theorem refusing_run (past : List Arrival) : Refusing (Run.after step new past) past := by
  induction past using List.reverseRecOn with
  | nil => exact ⟨rfl, rfl, rfl, rfl⟩
  | append_singleton past a ih =>
      rw [Run.after_append]
      show Refusing ((Run.after step new past).step a) _
      rw [(handle_spec ih.lattice a).1]
      refine ⟨ih.lattice, ih.journal, ?_⟩
      rw [List.map_append]
      exact AnfsSecurity.audits_emit ih.audit _

/-- Whatever is asked of the overlay, what would change a file is refused, nothing is ever in the
journal, and the audit holds the last 1024 requests, all of them as refused. -/
theorem overlay_run (past : List Arrival) :
    (Run.after step new past).journal = .new ∧
      (Run.after step new past).security.audit.buffer.map AuditEntry.told =
        (past.map refusal).rtake 1024 ∧
      ∀ a : Arrival, a.request.target.1.isMutating = true →
        ((Run.after step new past).handle a.w a.now a.request).1 = .error eacces := by
  obtain ⟨hlattice, hjournal, haudit⟩ := refusing_run past
  exact ⟨hjournal, haudit.buffer, fun a ha => (handle_spec hlattice a).2 ha⟩

end AnfsOverlay

end AnfsStore

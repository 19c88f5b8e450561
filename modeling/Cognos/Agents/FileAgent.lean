/-
# `Cognos.Agents.FileAgent` — the gate before a file operation

`file_agent.py`: a file is moved, a file or a directory is created, each after a question to
HAL.  What HAL answers is a dictionary that comes from somewhere else: the live call and its
fallback (`shared/ipc.py`) say `status`, the wrapper of the one-shot executor (`file_task.py`)
says `approved` as well.

    FailClosed                 with this answer the operation changes the file system only if
                               the answer grants it
    operation_failClosed_iff   which answers an operation is safe with: those that grant it,
                               and those with an `approved` that is false
    failClosed_status_iff      of an answer without `approved`: only a grant
    failClosed_wrapped         what the wrapper makes of an answer is always safe

The file system is any that has these calls, each of which may fail half-way.
-/
import Mathlib
import Cognos.Lib.PyValue
import Cognos.Lib.Text

namespace Agents

open Py (Value Fields Exc get pathName pathParent)

/-! ## Paths -/

/-- What the system says of paths: the home, the roots of `COGNOS_EXTRA_PATHS`, where a path
leads (`expanduser`, `realpath`), and how Python writes a string and a list of strings. -/
structure PathWorld where
  home : String
  extraRoots : List String
  resolve : String → Except Exc String
  repr : String → String
  reprList : List String → String

/-- A path that is refused, or an exception of the system. -/
inductive PathError
  | violation (text : String)
  | raised (e : Exc)

/-- `ValidatedPath(raw)`, as its text. -/
def PathWorld.validated (w : PathWorld) (raw : String) : Except PathError String :=
  match w.resolve raw with
  | .error e => .error (.raised e)
  | .ok resolved =>
      let allowedRoots := w.home :: w.extraRoots
      if '\x00' ∈ resolved.toList then .error (.violation ("Null byte in path: " ++ w.repr raw))
      else if 4096 < resolved.toList.length then
        .error (.violation "Path too long (>4096 chars)")
      else if allowedRoots.any (Text.startsWith resolved ·) then .ok resolved
      else .error (.violation ("Path '" ++ resolved ++ "' is outside allowed roots " ++
        w.reprList allowedRoots ++ " — possible symlink escape or misconfiguration"))

/-! ## The file system -/

/-- The calls of a file system.  One that fails may have changed something before. -/
structure FileSystem where
  Tree : Type
  present : Tree → String → Bool
  isDir : Tree → String → Bool
  mkdir : Tree → String → Except Exc Unit × Tree
  move : Tree → String → String → Except Exc Unit × Tree
  writeText : Tree → String → String → Except Exc Unit × Tree

structure OperationResult where
  success : Bool
  message : String
  target : String
  extra : Fields

/-! ## HAL -/

/-- How the client's `gate` is called: with keywords, or without. -/
inductive GateCall
  | keywords (agent action target : String) (preScore : Float) (isAiGenerated : Bool)
  | positional (action target : String) (preScore : Float) (isAiGenerated : Bool)

/-- A client of HAL: the dictionary its `gate` returns, or what it raises. -/
abbrev HalClient := GateCall → Except Exc Fields

/-- Submit a HAL gate request. -/
def halGate (hal : Option HalClient) (action target : String) (preScore : Float) (isAi : Bool) :
    Except Exc Unit :=
  match hal with
  | none => .ok ()
  | some gate =>
      match gate (.keywords "file" action target preScore isAi) with
      | .error e => .error e
      | .ok result =>
          if (get result "approved" (.bool true)).truthy then .ok ()
          else .error (.os "PermissionError" ("HAL denied: " ++ action ++ " on " ++ target))

/-! ## Operations -/

section Operations

variable (F : FileSystem) (w : PathWorld) (hal : Option HalClient)

/-- What an operation comes to when a path of it is refused. -/
def PathError.result (target : String) : PathError → Except Exc OperationResult
  | .violation text => .ok ⟨false, text, target, []⟩
  | .raised e => .error e

def moveFile (tree : F.Tree) (src dst : String) : Except Exc OperationResult × F.Tree :=
  match w.validated src, w.validated dst with
  | .error e, _ => (e.result "", tree)
  | .ok _, .error e => (e.result "", tree)
  | .ok vsrc, .ok vdst =>
      if F.present tree vsrc then
        match halGate hal "move_file" vsrc 0.4 false with
        | .error e => (.error e, tree)
        | .ok () =>
            match F.mkdir tree (pathParent vdst) with
            | (.error e, tree) => (.error e, tree)
            | (.ok (), tree) =>
                match F.move tree vsrc vdst with
                | (.error (.os _ text), tree) =>
                    (.ok ⟨false, "Move failed: " ++ text, "", []⟩, tree)
                | (.error e, tree) => (.error e, tree)
                | (.ok (), tree) => (.ok ⟨true, "Moved to " ++ pathName vdst, vdst, []⟩, tree)
      else (.ok ⟨false, "Source not found: " ++ src, "", []⟩, tree)

def createFile (tree : F.Tree) (path content : String) (overwrite : Bool) :
    Except Exc OperationResult × F.Tree :=
  match w.validated path with
  | .error e => (e.result "", tree)
  | .ok vpath =>
      if F.present tree vpath && !overwrite then
        (.ok ⟨false, "File already exists at " ++ path ++ ". Pass overwrite=True to replace.", "",
          []⟩, tree)
      else
        match halGate hal "create_file" vpath 0.3 false with
        | .error e => (.error e, tree)
        | .ok () =>
            match F.mkdir tree (pathParent vpath) with
            | (.error e, tree) => (.error e, tree)
            | (.ok (), tree) =>
                match F.writeText tree vpath content with
                | (.error e, tree) => (.error e, tree)
                | (.ok (), tree) => (.ok ⟨true, "Created " ++ pathName vpath, vpath, []⟩, tree)

/-- What `create_directory` tells of an answer. -/
def halExtra (gate : Fields) : Fields :=
  [("hal_status", (get gate "status" .none).orElse
      (if (get gate "approved" .none).truthy then .str "granted" else .str "denied")),
    ("hal_risk_score", get gate "risk_score" .none)]

/-- The directory is made, once the gate is behind. -/
def makeDirectory (tree : F.Tree) (vpath : String) (extra : Fields) :
    Except Exc OperationResult × F.Tree :=
  match F.mkdir tree vpath with
  | (.error e, tree) => (.error e, tree)
  | (.ok (), tree) => (.ok ⟨true, "Created directory " ++ vpath, vpath, extra⟩, tree)

def createDirectory (tree : F.Tree) (path : String) : Except Exc OperationResult × F.Tree :=
  match w.validated path with
  | .error e => (e.result path, tree)
  | .ok vpath =>
      if F.present tree vpath then
        if F.isDir tree vpath then
          (.ok ⟨true, "Directory already exists: " ++ vpath, vpath,
            [("already_exists", .bool true)]⟩, tree)
        else (.ok ⟨false, "Path exists and is not a directory: " ++ path, "", []⟩, tree)
      else
        match hal with
        | none => makeDirectory F tree vpath []
        | some client =>
            match client (.positional "create_directory" vpath 0.25 false) with
            | .error e => (.error e, tree)
            | .ok gate =>
                if (get gate "approved" (.bool true)).truthy then
                  makeDirectory F tree vpath (halExtra gate)
                else
                  (.ok ⟨false, "HAL denied create_directory on " ++ path, path, halExtra gate⟩,
                    tree)

/-- The three operations that change files. -/
inductive Operation
  | moveFile (src dst : String)
  | createFile (path content : String) (overwrite : Bool)
  | createDirectory (path : String)

def Operation.run (tree : F.Tree) : Operation → Except Exc OperationResult × F.Tree
  | .moveFile src dst => Agents.moveFile F w hal tree src dst
  | .createFile path content overwrite => Agents.createFile F w hal tree path content overwrite
  | .createDirectory path => Agents.createDirectory F w hal tree path

end Operations

/-! ## Which answers are safe -/

/-- The answer grants the request. -/
def Grants (reply : Fields) : Prop :=
  reply.lookup "approved" = some (.bool true) ∨ reply.lookup "status" = some (.str "granted")

/-- A client that gives this answer. -/
def answering (reply : Fields) : Option HalClient := some fun _ => .ok reply

/-- With this answer the operation changes no file system, unless the answer grants it. -/
def FailClosed (op : Operation) (reply : Fields) : Prop :=
  ∀ (F : FileSystem) (w : PathWorld) (tree : F.Tree),
    (op.run F w (answering reply) tree).2 ≠ tree → Grants reply

theorem halGate_answering {reply : Fields} {action target : String} {preScore : Float}
    {isAi : Bool} (h : Py.Denies reply "approved") :
    halGate (answering reply) action target preScore isAi =
      .error (.os "PermissionError" ("HAL denied: " ++ action ++ " on " ++ target)) := by
  show (if (get reply "approved" (.bool true)).truthy then _ else _) = _
  rw [(Py.get_true_iff reply "approved").mpr h]
  rfl

/-- After an answer with an `approved` that is false, nothing is done. -/
theorem run_denied {op : Operation} {reply : Fields} (h : Py.Denies reply "approved")
    (F : FileSystem) (w : PathWorld) (tree : F.Tree) :
    (op.run F w (answering reply) tree).2 = tree := by
  cases op with
  | moveFile src dst =>
      show (moveFile F w (answering reply) tree src dst).2 = tree
      unfold moveFile
      split
      · rfl
      · rfl
      · split_ifs
        · rw [halGate_answering h]
        · rfl
  | createFile path content overwrite =>
      show (createFile F w (answering reply) tree path content overwrite).2 = tree
      unfold createFile
      split
      · rfl
      · split_ifs
        · rfl
        · rw [halGate_answering h]
  | createDirectory path =>
      show (createDirectory F w (answering reply) tree path).2 = tree
      unfold createDirectory answering
      split
      · rfl
      · split_ifs
        · rfl
        · rfl
        · simp only [(Py.get_true_iff reply "approved").mpr h, if_neg Bool.false_ne_true]

/-- A file system that tells whether any call changed it. -/
def flagged (present : Bool) : FileSystem where
  Tree := Bool
  present _ _ := present
  isDir _ _ := false
  mkdir _ _ := (.ok (), true)
  move _ _ _ := (.ok (), true)
  writeText _ _ _ := (.ok (), true)

/-- Every path leads to the home. -/
def homeOnly : PathWorld := ⟨"", [], fun _ => .ok "", fun s => s, fun _ => ""⟩

/-- What the operation needs to find at its path. -/
def Operation.needs : Operation → Bool
  | .moveFile _ _ => true
  | .createFile _ _ _ => false
  | .createDirectory _ => false

/-- After any other answer, the operation is carried out. -/
theorem run_let_through {op : Operation} {reply : Fields} (h : ¬ Py.Denies reply "approved") :
    (op.run (flagged op.needs) homeOnly (answering reply) false).2 = true := by
  have happroved : (get reply "approved" (.bool true)).truthy = true :=
    Bool.not_eq_false _ ▸ mt (Py.get_true_iff reply "approved").mp h
  have hgate : ∀ (action target : String) (preScore : Float) (isAi : Bool),
      halGate (answering reply) action target preScore isAi = .ok () := by
    intro action target preScore isAi
    show (if (get reply "approved" (.bool true)).truthy then _ else _) = _
    rw [happroved, if_pos rfl]
  have hpath : ∀ raw, homeOnly.validated raw = .ok "" := fun raw => rfl
  cases op with
  | moveFile src dst =>
      simp only [Operation.run, moveFile, hpath, hgate]
      rfl
  | createFile path content overwrite =>
      simp only [Operation.run, createFile, hpath, hgate]
      rfl
  | createDirectory path =>
      simp only [Operation.run, createDirectory, hpath, answering, happroved]
      rfl

/-- An answer that does neither lets the operation through without a grant. -/
theorem grants_or_denies {op : Operation} {reply : Fields} (h : FailClosed op reply) :
    Grants reply ∨ Py.Denies reply "approved" := by
  by_contra hneither
  obtain ⟨hgrants, hdenies⟩ := not_or.mp hneither
  refine hgrants (h (flagged op.needs) homeOnly false ?_)
  rw [run_let_through hdenies]
  exact fun hsame => Bool.false_ne_true hsame.symm

theorem failClosed_of_denies (op : Operation) {reply : Fields}
    (hdenies : Py.Denies reply "approved") : FailClosed op reply :=
  fun F w tree hchanged => absurd (run_denied hdenies F w tree) hchanged

/-- An operation is safe with an answer exactly when the answer grants it, or has an `approved`
that is false. -/
theorem operation_failClosed_iff (op : Operation) (reply : Fields) :
    FailClosed op reply ↔ Grants reply ∨ Py.Denies reply "approved" := by
  constructor
  · exact grants_or_denies
  · rintro (hgrants | hdenies)
    · exact fun _ _ _ _ => hgrants
    · exact failClosed_of_denies op hdenies

/-! ## The answers there are -/

/-- What the client of `shared/ipc.py` makes of a reply of HAL. -/
def halGateReply (status grantToken : String) (riskScore : Float) (data violation : Value)
    (traceId : String) : Fields :=
  [("status", .str status), ("grant_token", .str grantToken), ("risk_score", .float riskScore),
    ("data", data), ("violation", violation), ("trace_id", .str traceId)]

/-- What it returns when there is no HAL to ask. -/
def fallbackReply : Fields :=
  [("status", .str "pending"), ("grant_token", .str ""), ("risk_score", .float 0.0),
    ("violation", .none)]

/-- `status == "granted"`. -/
def isGranted : Value → Bool
  | .str s => s == "granted"
  | _ => false

/-- What `HalIpcWrapper.gate` makes of an answer. -/
def wrapped (resp : Fields) : Fields :=
  let status := get resp "status" (.str "failed")
  [("approved", .bool (isGranted status)), ("status", status),
    ("risk_score", get resp "risk_score" (.float 0.0)),
    ("grant_token", get resp "grant_token" (.str ""))]

/-- An answer without `approved` lets every operation through. -/
theorem failClosed_status_iff {op : Operation} {reply : Fields}
    (h : reply.lookup "approved" = none) :
    FailClosed op reply ↔ reply.lookup "status" = some (.str "granted") := by
  constructor
  · intro hclosed
    rcases grants_or_denies hclosed with (happroved | hstatus) | ⟨v, hv, -⟩
    · rw [h] at happroved
      cases happroved
    · exact hstatus
    · rw [h] at hv
      cases hv
  · exact fun hstatus _ _ _ _ => Or.inr hstatus

/-- Through the wrapper, an operation is safe with every answer. -/
theorem failClosed_wrapped (op : Operation) (resp : Fields) : FailClosed op (wrapped resp) := by
  cases hstatus : isGranted (get resp "status" (.str "failed")) with
  | true =>
      refine fun _ _ _ _ => Or.inl ?_
      rw [wrapped, hstatus]
      rfl
  | false =>
      refine failClosed_of_denies op ⟨.bool false, ?_, rfl⟩
      rw [wrapped, hstatus]
      rfl

/-- An answer with another status, and without `approved`, lets every operation through. -/
theorem not_failClosed_of_status (op : Operation) {status : String} {reply : Fields}
    (happroved : reply.lookup "approved" = none)
    (hstatus : reply.lookup "status" = some (.str status)) (hnot : status ≠ "granted") :
    ¬ FailClosed op reply := by
  rw [failClosed_status_iff happroved, hstatus]
  exact fun h => hnot (Value.str.inj (Option.some.inj h))

/-- When HAL is not there, or has denied, the file is made. -/
theorem not_failClosed_unapproved :
    ¬ FailClosed (.createFile "~/notes.txt" "" false) fallbackReply ∧
      ¬ FailClosed (.createFile "~/notes.txt" "" false)
        (halGateReply "denied" "" 0.9 .none .none "") :=
  ⟨not_failClosed_of_status _ rfl rfl (by decide), not_failClosed_of_status _ rfl rfl (by decide)⟩

end Agents

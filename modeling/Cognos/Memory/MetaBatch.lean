/-
# `Cognos.Memory.MetaBatch` — access counts, batched and flushed

The overlay counts the accesses to a file in a batch in memory (`queue_meta_update`).  A
flush drains the batch and writes each record over the file named by the hash of its path
(`flush_meta_batch_static`); what was in that file is not looked at, and what becomes of the
write is not either.

    Conserved       for each path the file says as many accesses as were recorded for it up to
                    the last flush
    Careful         the condition on a flush that keeps it so
    conserved_iff   a run conserves the counts throughout exactly when its flushes are careful

`DefaultHasher` is any function; a `HashMap` is drained in any order.
-/
import Mathlib
import Cognos.Lib.Run

namespace Anfs

/-! ## The batch -/

/-- Metadata blob stored per file. -/
structure FileAnfsMeta where
  path : String
  lastAccessed : String
  accessCount : UInt64
  sessionIds : List String
  coOpenedFiles : List String
  importanceScore : Float32
  semanticTags : List String
  projectDomain : Option String
  snapshotBeforeEdit : Option String

def FileAnfsMeta.default : FileAnfsMeta where
  path := ""
  lastAccessed := ""
  accessCount := 0
  sessionIds := []
  coOpenedFiles := []
  importanceScore := 0.0
  semanticTags := []
  projectDomain := none
  snapshotBeforeEdit := none

/-- Pending metadata updates. -/
abbrev MetaBatch := AList fun _ : String => FileAnfsMeta

namespace MetaBatch

/-- The entry of a path, or a new one. -/
def entry (batch : MetaBatch) (path : String) : FileAnfsMeta :=
  (batch.lookup path).getD .default

/-- `queue_meta_update`, with the text of the real path; `none` is the panic of a count that
overflows in a build that checks. -/
def queueMetaUpdate (checked : Bool) (batch : MetaBatch) (session now path : String) :
    Option MetaBatch :=
  let entry := batch.entry path
  if checked = true ∧ entry.accessCount.toNat + 1 = 2 ^ 64 then none
  else some (batch.insert path
    { entry with
      path := path
      accessCount := entry.accessCount + 1
      lastAccessed := now
      sessionIds :=
        if session ∈ entry.sessionIds then entry.sessionIds
        else entry.sessionIds ++ [session] })

end MetaBatch

/-- How an `fs::write` ends: the text is in the file; the file cannot be opened; it was emptied
and holds no record. -/
inductive Written
  | whole
  | refused
  | cut
  deriving DecidableEq

/-- What the files of the metadata directory say, by the hash that names them: a record, or
nothing that can be read. -/
abbrev MetaDir := UInt64 → Option FileAnfsMeta

/-- The order a map of paths is drained in. -/
structure DrainOrder where
  arrange : List String → List String
  perm : ∀ paths, (arrange paths).Perm paths

variable (hash : String → UInt64)

/-- The body of the flush, for a path. -/
def writeMeta (batch : MetaBatch) (outcome : String → Written) (dir : MetaDir) (path : String) :
    MetaDir :=
  match outcome path with
  | .whole => Function.update dir (hash path) (batch.lookup path)
  | .refused => dir
  | .cut => Function.update dir (hash path) none

/-- `flush_meta_batch_static`: the files after it. -/
def flushMetaBatch (batch : MetaBatch) (order : DrainOrder) (outcome : String → Written)
    (dir : MetaDir) : MetaDir :=
  (order.arrange batch.keys).foldl (writeMeta hash batch outcome) dir

/-! ## The last writer of a file -/

theorem writeMeta_of_ne {batch : MetaBatch} {outcome : String → Written} {dir : MetaDir}
    {path : String} {name : UInt64} (h : hash path ≠ name) :
    writeMeta hash batch outcome dir path name = dir name := by
  unfold writeMeta
  cases outcome path with
  | whole => exact Function.update_of_ne (Ne.symm h) _ _
  | refused => rfl
  | cut => exact Function.update_of_ne (Ne.symm h) _ _

/-- A file of the directory is as it was, or as the last path left it that has it and was not
refused. -/
theorem lookup_foldl_writeMeta (batch : MetaBatch) (outcome : String → Written) (dir : MetaDir)
    (paths : List String) (name : UInt64) :
    (paths.foldl (writeMeta hash batch outcome) dir name = dir name ∧
        ∀ p ∈ paths, hash p = name → outcome p = .refused) ∨
      ∃ p ∈ paths, hash p = name ∧
        (outcome p = .whole ∧
            paths.foldl (writeMeta hash batch outcome) dir name = batch.lookup p ∨
          outcome p = .cut ∧ paths.foldl (writeMeta hash batch outcome) dir name = none) := by
  induction paths using List.reverseRecOn with
  | nil => exact Or.inl ⟨rfl, fun p hp => absurd hp List.not_mem_nil⟩
  | append_singleton paths path ih =>
      rw [List.foldl_append]
      show (writeMeta hash batch outcome _ path name = _ ∧ _) ∨ ∃ p ∈ _, hash p = name ∧
        (_ ∧ writeMeta hash batch outcome _ path name = _ ∨
          _ ∧ writeMeta hash batch outcome _ path name = _)
      have hlast : path ∈ paths ++ [path] := List.mem_append_right _ List.mem_cons_self
      by_cases hname : hash path = name
      · cases hwritten : outcome path with
        | whole =>
            refine Or.inr ⟨path, hlast, hname, Or.inl ⟨hwritten, ?_⟩⟩
            rw [writeMeta, hwritten, ← hname]
            exact Function.update_self _ _ _
        | cut =>
            refine Or.inr ⟨path, hlast, hname, Or.inr ⟨hwritten, ?_⟩⟩
            rw [writeMeta, hwritten, ← hname]
            exact Function.update_self _ _ _
        | refused =>
            rw [writeMeta, hwritten]
            rcases ih with ⟨hsame, hrefused⟩ | ⟨p, hp, hwriter⟩
            · refine Or.inl ⟨hsame, fun p hp hpname => ?_⟩
              rcases List.mem_append.mp hp with hp | hp
              · exact hrefused p hp hpname
              · exact List.mem_singleton.mp hp ▸ hwritten
            · exact Or.inr ⟨p, List.mem_append_left _ hp, hwriter⟩
      · rw [writeMeta_of_ne hash hname]
        rcases ih with ⟨hsame, hrefused⟩ | ⟨p, hp, hwriter⟩
        · refine Or.inl ⟨hsame, fun p hp hpname => ?_⟩
          rcases List.mem_append.mp hp with hp | hp
          · exact hrefused p hp hpname
          · exact absurd (List.mem_singleton.mp hp ▸ hpname) hname
        · exact Or.inr ⟨p, List.mem_append_left _ hp, hwriter⟩

/-! ## The machine -/

/-- The overlay's batch and the files, whether the overlay has panicked, and for each path the
accesses recorded so far and those recorded up to the last flush. -/
structure Counting where
  batch : MetaBatch
  dir : MetaDir
  crashed : Bool
  recorded : String → Nat
  flushed : String → Nat

/-- Nothing recorded yet, no files. -/
def Counting.new : Counting := ⟨∅, fun _ => none, false, fun _ => 0, fun _ => 0⟩

inductive Act
  | access (path now : String)
  | flush (order : DrainOrder) (outcome : String → Written)

namespace Counting

variable (checked : Bool) (session : String)

def step (s : Counting) : Act → Counting
  | .access path now =>
      if s.crashed then s
      else
        match s.batch.queueMetaUpdate checked session now path with
        | none => { s with crashed := true }
        | some batch =>
            { s with
              batch := batch
              recorded := Function.update s.recorded path (s.recorded path + 1) }
  | .flush order outcome =>
      if s.crashed then s
      else
        { s with
          batch := ∅
          dir := flushMetaBatch hash s.batch order outcome s.dir
          flushed := s.recorded }

/-- The count the file of a path says for it. -/
def persisted (s : Counting) (path : String) : Nat :=
  match s.dir (hash path) with
  | some m => if m.path = path then m.accessCount.toNat else 0
  | none => 0

def Conserved (s : Counting) : Prop := ∀ path, s.persisted hash path = s.flushed path

/-- At a flush, each path of the batch is written in full and for the first time, counts fewer
accesses than overflow, and has its file for itself among the paths accessed so far. -/
def Careful (s : Counting) : Act → Prop
  | .access _ _ => True
  | .flush _ outcome => s.crashed = false → ∀ p ∈ s.batch, outcome p = .whole ∧
      s.flushed p = 0 ∧ s.recorded p < 2 ^ 64 ∧
        ∀ q, q ≠ p → 0 < s.recorded q → hash q ≠ hash p

/-- What the batch counts: the accesses since the last flush, as far as a `u64` goes. -/
structure Counted (s : Counting) : Prop where
  conserved : s.Conserved hash
  absent : ∀ path, path ∉ s.batch → s.recorded path = s.flushed path
  present : ∀ path m, s.batch.lookup path = some m → m.path = path ∧
    s.flushed path < s.recorded path ∧
      m.accessCount.toNat = (s.recorded path - s.flushed path) % 2 ^ 64

theorem counted_new : Counted hash new where
  conserved _ := rfl
  absent _ _ := rfl
  present _ _ h := by cases h

variable {hash checked session} {s : Counting}

theorem Counted.access (h : Counted hash s) (path now : String) :
    Counted hash (step hash checked session s (.access path now)) := by
  rw [step]
  split
  · exact h
  · cases hqueue : s.batch.queueMetaUpdate checked session now path with
    | none => exact ⟨h.conserved, h.absent, h.present⟩
    | some batch =>
        unfold MetaBatch.queueMetaUpdate at hqueue
        dsimp only at hqueue ⊢
        split at hqueue
        · cases hqueue
        obtain rfl := Option.some.inj hqueue
        have hle : s.flushed path ≤ s.recorded path ∧ (s.batch.entry path).accessCount.toNat =
            (s.recorded path - s.flushed path) % 2 ^ 64 := by
          unfold MetaBatch.entry
          cases hlookup : s.batch.lookup path with
          | none =>
              rw [h.absent path (AList.lookup_eq_none.mp hlookup)]
              exact ⟨le_refl _, by rw [Nat.sub_self]; rfl⟩
          | some m =>
              obtain ⟨-, hlt, hcount⟩ := h.present path m hlookup
              exact ⟨hlt.le, hcount⟩
        refine ⟨h.conserved, ?_, ?_⟩
        · intro p hp
          obtain ⟨hne, hp⟩ := not_or.mp (mt (AList.mem_insert _).mpr hp)
          show Function.update s.recorded path _ p = s.flushed p
          rw [Function.update_of_ne hne]
          exact h.absent p hp
        · intro p m hm
          show m.path = p ∧ s.flushed p < Function.update s.recorded path _ p ∧
            m.accessCount.toNat = (Function.update s.recorded path _ p - s.flushed p) % 2 ^ 64
          by_cases hp : p = path
          · subst hp
            rw [AList.lookup_insert] at hm
            obtain rfl := Option.some.inj hm
            rw [Function.update_self]
            refine ⟨rfl, Nat.lt_succ_of_le hle.1, ?_⟩
            show ((s.batch.entry p).accessCount + 1).toNat = _
            rw [UInt64.toNat_add, hle.2, Nat.succ_sub hle.1]
            exact Nat.mod_add_mod _ _ _
          · rw [AList.lookup_insert_ne hp] at hm
            rw [Function.update_of_ne hp]
            exact h.present p m hm

theorem mem_arrange {order : DrainOrder} {batch : MetaBatch} {p : String} :
    p ∈ order.arrange batch.keys ↔ p ∈ batch :=
  (order.perm batch.keys).mem_iff

/-- A careful flush writes for each path what was recorded for it. -/
theorem Counted.persisted_flush (h : Counted hash s) (hcrashed : s.crashed = false)
    {order : DrainOrder} {outcome : String → Written}
    (hcareful : Careful hash s (.flush order outcome)) (path : String) :
    (step hash checked session s (.flush order outcome)).persisted hash path =
      s.recorded path := by
  have hcareful := hcareful hcrashed
  rw [step, if_neg (by rw [hcrashed]; exact Bool.false_ne_true)]
  unfold persisted flushMetaBatch
  dsimp only
  have hlast := lookup_foldl_writeMeta hash s.batch outcome s.dir
    (order.arrange s.batch.keys) (hash path)
  by_cases hpath : path ∈ s.batch
  · obtain ⟨hwhole, hfirst, hfits, halone⟩ := hcareful path hpath
    rcases hlast with ⟨-, hrefused⟩ | ⟨p, hp, hname, hwriter⟩
    · have hout := hrefused path (mem_arrange.mpr hpath) rfl
      rw [hwhole] at hout
      cases hout
    · obtain ⟨m, hm⟩ := Option.isSome_iff_exists.mp (AList.lookup_isSome.mpr (mem_arrange.mp hp))
      obtain ⟨hmpath, hlt, -⟩ := h.present p m hm
      have hsame : p = path := by
        by_contra hne
        exact halone p hne (by omega) hname
      subst hsame
      rcases hwriter with ⟨-, hdir⟩ | ⟨hcut, -⟩
      · obtain ⟨-, hlt, hcount⟩ := h.present p m hm
        rw [hdir, hm]
        dsimp only
        rw [if_pos hmpath, hcount, hfirst, Nat.sub_zero, Nat.mod_eq_of_lt hfits]
      · rw [hwhole] at hcut
        cases hcut
  · have hsame := h.absent path hpath
    rcases hlast with ⟨hdir, -⟩ | ⟨p, hp, hname, hwriter⟩
    · rw [hdir, hsame]
      exact h.conserved path
    · have hp := mem_arrange.mp hp
      have hne : path ≠ p := fun heq => hpath (heq ▸ hp)
      obtain ⟨hwhole, -, -, halone⟩ := hcareful p hp
      obtain ⟨m, hm⟩ := Option.isSome_iff_exists.mp (AList.lookup_isSome.mpr hp)
      have hzero : s.recorded path = 0 := by
        by_contra hpos
        exact halone path hne (Nat.pos_of_ne_zero hpos) hname.symm
      rcases hwriter with ⟨-, hdir⟩ | ⟨hcut, -⟩
      · rw [hdir, hm, hzero]
        dsimp only
        rw [if_neg]
        rw [(h.present p m hm).1]
        exact Ne.symm hne
      · rw [hwhole] at hcut
        cases hcut

/-- And only a careful one does. -/
theorem Counted.careful_of_conserved (h : Counted hash s) {order : DrainOrder}
    {outcome : String → Written}
    (hafter : (step hash checked session s (.flush order outcome)).Conserved hash) :
    Careful hash s (.flush order outcome) := by
  intro hcrashed p hp
  have hpersisted : ∀ path, (step hash checked session s (.flush order outcome)).persisted hash
      path = s.recorded path := by
    intro path
    rw [hafter path, step, if_neg (by rw [hcrashed]; exact Bool.false_ne_true)]
  rw [step, if_neg (by rw [hcrashed]; exact Bool.false_ne_true)] at hpersisted
  unfold persisted flushMetaBatch at hpersisted
  dsimp only at hpersisted
  obtain ⟨m, hm⟩ := Option.isSome_iff_exists.mp (AList.lookup_isSome.mpr hp)
  obtain ⟨-, hlt, -⟩ := h.present p m hm
  have hown := hpersisted p
  have hlast := lookup_foldl_writeMeta hash s.batch outcome s.dir
    (order.arrange s.batch.keys) (hash p)
  -- the file holds a record of the path's own, so it was the path that wrote it last
  have hwrote : outcome p = .whole ∧ (order.arrange s.batch.keys).foldl
      (writeMeta hash s.batch outcome) s.dir (hash p) = s.batch.lookup p := by
    rcases hlast with ⟨hdir, -⟩ | ⟨p', hp', -, hwriter⟩
    · rw [hdir] at hown
      have hbefore : s.persisted hash p = s.flushed p := h.conserved p
      exact absurd (hown.symm.trans hbefore) hlt.ne'
    · obtain ⟨m', hm'⟩ := Option.isSome_iff_exists.mp
        (AList.lookup_isSome.mpr (mem_arrange.mp hp'))
      rcases hwriter with ⟨hwhole, hdir⟩ | ⟨-, hdir⟩
      · rw [hdir, hm'] at hown
        dsimp only at hown
        by_cases hpath : m'.path = p
        · have hsame : p' = p := (h.present p' m' hm').1.symm.trans hpath
          rw [hsame] at hwhole hdir
          exact ⟨hwhole, hdir⟩
        · rw [if_neg hpath] at hown
          omega
      · rw [hdir] at hown
        dsimp only at hown
        omega
  obtain ⟨hmpath, -, hcount⟩ := h.present p m hm
  rw [hwrote.2, hm] at hown
  dsimp only at hown
  rw [if_pos hmpath, hcount] at hown
  have hle := Nat.mod_le (s.recorded p - s.flushed p) (2 ^ 64)
  have hfits := Nat.mod_lt (s.recorded p - s.flushed p) (show 0 < 2 ^ 64 by omega)
  refine ⟨hwrote.1, by omega, by omega, fun q hq hpos hname => ?_⟩
  have hother := hpersisted q
  rw [hname, hwrote.2, hm] at hother
  dsimp only at hother
  rw [if_neg fun hpath => hq (hpath.symm.trans hmpath)] at hother
  omega

theorem Counted.conserved_flush (h : Counted hash s) {order : DrainOrder}
    {outcome : String → Written} (hcareful : Careful hash s (.flush order outcome)) :
    (step hash checked session s (.flush order outcome)).Conserved hash := by
  intro path
  by_cases hcrashed : s.crashed = true
  · rw [step, if_pos hcrashed]
    exact h.conserved path
  · have hrunning := Bool.eq_false_of_not_eq_true hcrashed
    rw [h.persisted_flush hrunning hcareful path, step, if_neg hcrashed]

theorem Counted.step (h : Counted hash s) {act : Act} (hcareful : Careful hash s act) :
    Counted hash (step hash checked session s act) := by
  cases act with
  | access path now => exact h.access path now
  | flush order outcome =>
      refine ⟨h.conserved_flush hcareful, ?_, ?_⟩
      · intro path hpath
        rw [Counting.step] at hpath ⊢
        split at hpath
        next hcrashed =>
          rw [if_pos hcrashed]
          exact h.absent path hpath
        next hrunning =>
          rw [if_neg hrunning]
      · intro path m hm
        rw [Counting.step] at hm ⊢
        split at hm
        next hcrashed =>
          rw [if_pos hcrashed]
          exact h.present path m hm
        next => cases hm

/-- In a run of accesses and flushes the files conserve the counts at all times exactly when
each flush is careful. -/
theorem conserved_iff (hash : String → UInt64) (checked : Bool) (session : String)
    (acts : List Act) :
    Run.Throughout (Counting.step hash checked session) (Conserved hash) new acts ↔
      Run.Along (Counting.step hash checked session) (Careful hash) new acts := by
  refine Run.throughout_iff_along (I := Counted hash) _ (fun s hs => hs.conserved) ?_
    (fun s act hs hcareful => hs.step hcareful) (counted_new hash)
  intro s act hs
  cases act with
  | access path now => exact iff_of_true (hs.access path now).conserved trivial
  | flush order outcome => exact ⟨hs.careful_of_conserved, hs.conserved_flush⟩

/-! ## A second flush -/

def inOrder : DrainOrder := ⟨id, fun paths => List.Perm.refl paths⟩

/-- A file is accessed and flushed, and accessed and flushed again; each write succeeds. -/
def twoFlushes : List Act :=
  [.access "/home/user/a.md" "2026-01-01T00:00:00+00:00", .flush inOrder fun _ => .whole,
    .access "/home/user/a.md" "2026-01-01T00:00:10+00:00", .flush inOrder fun _ => .whole]

/-- After two accesses the file says one, whatever the hash that names it. -/
theorem not_conserved_twoFlushes :
    ¬ ∃ hash : String → UInt64,
      Run.Throughout (Counting.step hash false "s") (Conserved hash) new twoFlushes := by
  rintro ⟨hash, h⟩
  have htotal := h twoFlushes (List.prefix_refl _) "/home/user/a.md"
  have hflushed : (Run.after (Counting.step hash false "s") new twoFlushes).flushed
      "/home/user/a.md" = 2 := rfl
  have hdir : (Run.after (Counting.step hash false "s") new twoFlushes).dir
      (hash "/home/user/a.md") = some
        { FileAnfsMeta.default with
          path := "/home/user/a.md"
          accessCount := 1
          lastAccessed := "2026-01-01T00:00:10+00:00"
          sessionIds := ["s"] } :=
    Function.update_self (hash "/home/user/a.md") _ _
  rw [hflushed, persisted, hdir] at htotal
  revert htotal
  decide

end Counting

end Anfs

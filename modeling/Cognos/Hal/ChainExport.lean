/-
# `Cognos.Hal.ChainExport` — a chain written out and read back

`export` of `audit_chain.rs` writes a chain one JSON line an entry; what the derived readers
make of the lines is the chain again, but for the order in which the new hash maps are iterated
and for scores that are not finite, which come back as none.  An entry is hashed through its
text, so the order of its metadata is part of the hash.

    canonical_eq       with one key at most, the order does not show
    exists_reordered   with two keys there is an order that does
    readLine_line      what a line is read as
    exported_iff       which chains can be read back
-/
import Mathlib
import Cognos.Hal.AuditChain

namespace Hal.Chain

variable {Time : Type} (K : Codecs Time)

/-! ## Equal as data -/

/-- The same keys with the same values. -/
def Metadata.Same (m n : Metadata) : Prop := m.entries.Perm n.entries

/-- An entry with its metadata in another order. -/
def AuditEntry.reordered (e : AuditEntry Time) (m : Metadata) : AuditEntry Time :=
  { e with metadata := m }

/-- No key has another beside it. -/
def AuditEntry.Single (e : AuditEntry Time) : Prop := e.metadata.entries.length ≤ 1

theorem Metadata.ext_entries {m n : Metadata} (h : m.entries = n.entries) : m = n := by
  cases m
  cases n
  cases h
  rfl

/-- A map with one key has one order. -/
theorem Metadata.Same.eq_of_single {m n : Metadata} (h : m.Same n) (hm : m.entries.length ≤ 1) :
    m = n := by
  apply Metadata.ext_entries
  have hperm : m.entries.Perm n.entries := h
  match hentries : m.entries with
  | [] =>
      rw [hentries] at hperm
      exact hperm.nil_eq
  | [p] =>
      rw [hentries] at hperm
      exact (List.perm_singleton.mp hperm.symm).symm
  | p :: q :: rest =>
      rw [hentries, List.length_cons, List.length_cons] at hm
      omega

/-- A map with two keys has two. -/
theorem Metadata.exists_other {m : Metadata} (h : ¬ m.entries.length ≤ 1) :
    ∃ n, m.Same n ∧ n.entries ≠ m.entries := by
  obtain ⟨entries, hnodup⟩ := m
  match entries with
  | [] => exact absurd (Nat.zero_le 1) h
  | [p] => exact absurd (Nat.le_refl 1) h
  | p :: q :: rest =>
      have hperm : (p :: q :: rest).Perm (q :: p :: rest) := List.Perm.swap q p rest
      refine ⟨⟨q :: p :: rest, (hperm.map Prod.fst).nodup_iff.mp hnodup⟩, hperm, ?_⟩
      intro heq
      obtain ⟨hqp, -⟩ := List.cons.inj heq
      subst hqp
      exact (List.nodup_cons.mp hnodup).1 List.mem_cons_self

/-! ## The text -/

theorem AuditEntry.nodup_members (e : AuditEntry Time) : ((e.members K).map Prod.fst).Nodup := by
  show ["id", "ts", "agent", "action", "hal_score", "hal_level", "metadata"].Nodup
  decide

/-- The text shows the order of the metadata. -/
theorem AuditEntry.canonical_reordered {e : AuditEntry Time} {m : Metadata}
    (h : (e.reordered m).canonical K = e.canonical K) : m.entries = e.metadata.entries := by
  have hlook := Json.lookup_eq_of_print_eq (AuditEntry.nodup_members K (e.reordered m))
    (AuditEntry.nodup_members K e) h "metadata"
  have hkey : ∀ f : AuditEntry Time, ((f.members K).lookup "metadata").join
      = some f.metadata.json := fun _ => rfl
  rw [hkey, hkey] at hlook
  have hmap := Json.Value.obj.inj (Option.some.inj hlook)
  refine List.map_injective_iff.mpr ?_ hmap
  rintro ⟨k, v⟩ ⟨k', v'⟩ heq
  obtain ⟨rfl, hv⟩ := Prod.mk.inj (show (k, Json.Value.str v) = (k', .str v') from heq)
  rw [Json.Value.str.inj hv]

/-- With one key at most, the order does not show. -/
theorem AuditEntry.canonical_eq {e : AuditEntry Time} (h : e.Single) {m : Metadata}
    (hm : e.metadata.Same m) : (e.reordered m).canonical K = e.canonical K := by
  rw [← hm.eq_of_single h]
  rfl

/-- With two keys there is an order that does. -/
theorem AuditEntry.exists_reordered {e : AuditEntry Time} (h : ¬ e.Single) :
    ∃ m, e.metadata.Same m ∧ (e.reordered m).canonical K ≠ e.canonical K := by
  obtain ⟨m, hm, hne⟩ := Metadata.exists_other h
  exact ⟨m, hm, fun heq => hne (canonical_reordered K heq)⟩

/-! ## Reading an entry -/

/-- `insert` of a map, when the order does not matter. -/
def Metadata.insert (m : Metadata) (p : String × String) : Metadata where
  entries := m.entries.filter (·.1 ≠ p.1) ++ [p]
  nodup := by
    rw [List.map_append, List.map_singleton, List.nodup_append]
    refine ⟨m.nodup.sublist (List.filter_sublist.map _), List.nodup_singleton _, ?_⟩
    intro k hk k' hk' heq
    obtain ⟨q, hq, rfl⟩ := List.mem_map.mp hk
    obtain rfl := List.mem_singleton.mp hk'
    exact of_decide_eq_true (List.mem_filter.mp hq).2 heq

/-- A map of these pairs, a later one in the place of an earlier one. -/
def Metadata.ofPairs (ps : List (String × String)) : Metadata :=
  ps.foldl Metadata.insert ⟨[], List.nodup_nil⟩

/-- The order in which a new map is iterated. -/
structure Iteration where
  arrange : Metadata → Metadata
  same : ∀ m : Metadata, m.Same (arrange m)

theorem Metadata.foldl_insert {ps : List (String × String)} {m : Metadata}
    (h : ((m.entries ++ ps).map Prod.fst).Nodup) :
    (ps.foldl Metadata.insert m).entries = m.entries ++ ps := by
  induction ps generalizing m with
  | nil => exact (List.append_nil _).symm
  | cons p ps ih =>
      have hfilter : m.entries.filter (·.1 ≠ p.1) = m.entries := by
        rw [List.filter_eq_self]
        intro q hq
        rw [List.map_append, List.nodup_append] at h
        exact decide_eq_true (h.2.2 q.1 (List.mem_map_of_mem hq) p.1 List.mem_cons_self)
      have hinsert : (m.insert p).entries = m.entries ++ [p] := by
        show m.entries.filter _ ++ [p] = _
        rw [hfilter]
      rw [List.foldl_cons, ih, hinsert, List.append_assoc]
      · rfl
      · rw [hinsert, List.append_assoc]
        exact h

theorem Metadata.ofPairs_entries (m : Metadata) : Metadata.ofPairs m.entries = m :=
  Metadata.ext_entries (Metadata.foldl_insert m.nodup)

/-- A member whose value is a string. -/
def stringMember? (f : String × Json.Value) : Option (String × String) :=
  f.2.asStr?.map fun s => (f.1, s)

/-- The derived reader of a map of strings. -/
def Metadata.read (it : Iteration) : Json.Value → Option Metadata
  | .obj fs => (fs.mapM stringMember?).map fun ps => it.arrange (Metadata.ofPairs ps)
  | _ => none

theorem Metadata.read_json (it : Iteration) (m : Metadata) :
    Metadata.read it m.json = some (it.arrange m) := by
  have hmap : ∀ ps : List (String × String),
      (ps.map fun p => (p.1, Json.Value.str p.2)).mapM stringMember? = some ps := by
    intro ps
    induction ps with
    | nil => rfl
    | cons p ps ih =>
        rw [List.map_cons, List.mapM_cons, ih]
        rfl
  rw [Metadata.json, Metadata.read, hmap, Option.map_some, Metadata.ofPairs_entries]

def AuditEntry.names : List String :=
  ["id", "ts", "agent", "action", "hal_score", "hal_level", "metadata"]

/-- The fields, from what was found under each name. -/
def AuditEntry.ofSlots (it : Iteration) : List (Option Json.Value) → Option (AuditEntry Time)
  | [id, ts, agent, action, halScore, halLevel, metadata] => do
      let id ← Json.required Uuid.readUuid? id
      let ts ← Json.required K.readTime? ts
      let agent ← Json.required Json.Value.asStr? agent
      let action ← Json.required Json.Value.asStr? action
      let halScore ← Json.optional K.readF32? halScore
      let halLevel ← Json.optional Json.Value.asStr? halLevel
      let metadata ← Json.required (Metadata.read it) metadata
      some { id, ts, agent, action, halScore, halLevel, metadata }
  | _ => none

/-- The derived reader of an entry. -/
def AuditEntry.read (it : Iteration) (v : Json.Value) : Option (AuditEntry Time) :=
  (Json.slots AuditEntry.names v).bind (AuditEntry.ofSlots K it)

/-- An entry as it comes back: its metadata in some order, its score if it was finite. -/
def AuditEntry.back (it : Iteration) (e : AuditEntry Time) : AuditEntry Time :=
  { e with
    halScore := e.halScore.filter Float32.isFinite
    metadata := it.arrange e.metadata }

theorem optional_score (x : Option Float32) :
    Json.optional K.readF32? (some (scoreJson K x)) = some (x.filter Float32.isFinite) := by
  cases x with
  | none => rfl
  | some x =>
      by_cases hx : x.isFinite = true
      · rw [Option.filter_some, if_pos hx]
        exact Json.optional_of_read (K.readF32?_f32 hx) rfl
      · rw [Option.filter_some, if_neg hx, scoreJson, Codecs.f32, if_neg hx]
        rfl

theorem optional_level (s : Option String) :
    Json.optional Json.Value.asStr? (some (optionJson s)) = some s := by
  cases s <;> rfl

theorem AuditEntry.read_json (it : Iteration) (e : AuditEntry Time) :
    AuditEntry.read K it (e.json K) = some (e.back it) := by
  have hslots : Json.slots names (e.json K) = some ((e.members K).map Prod.snd) :=
    Json.slots_record_self (e.members K) (e.nodup_members K)
  have hid : Uuid.readUuid? (.str e.id.text) = some e.id := Uuid.parse?_text e.id
  rw [read, hslots, Option.bind_some]
  show ofSlots K it [_, _, _, _, _, _, _] = _
  simp only [ofSlots, Json.required, hid, Codecs.readTime?_showTime, Json.Value.asStr?,
    optional_score, optional_level, Metadata.read_json, Option.bind_eq_bind, Option.bind_some]
  rfl

/-- What comes back has the text of the entry with its metadata in that order. -/
theorem AuditEntry.canonical_back (it : Iteration) (e : AuditEntry Time) :
    (e.back it).canonical K = (e.reordered (it.arrange e.metadata)).canonical K := by
  have hscore : scoreJson K (e.halScore.filter Float32.isFinite) = scoreJson K e.halScore := by
    cases e.halScore with
    | none => rfl
    | some x =>
        by_cases hx : x.isFinite = true
        · rw [Option.filter_some, if_pos hx]
        · rw [Option.filter_some, if_neg hx, scoreJson, scoreJson, Codecs.f32, if_neg hx]
  have hmembers : (e.back it).members K = (e.reordered (it.arrange e.metadata)).members K := by
    rw [members, members]
    show [_, _, _, _, ("hal_score", some (scoreJson K (e.halScore.filter Float32.isFinite))), _, _]
      = _
    rw [hscore]
    rfl
  rw [canonical, canonical, json, json, hmembers]

/-! ## Lines -/

namespace ChainedEntry

def names : List String := ["seq", "prev_hash", "entry", "entry_hash"]

def members (c : ChainedEntry Time) : List (String × Option Json.Value) :=
  [("seq", some (.ofNat c.seq)), ("prev_hash", some (.ofBytes c.prevHash.val)),
    ("entry", some (c.entry.json K)), ("entry_hash", some (.ofBytes c.entryHash.val))]

/-- `serde_json::to_string(chained)`. -/
def line (c : ChainedEntry Time) : String := (Json.record (c.members K)).print

/-- An array of thirty-two bytes. -/
def asHash? (v : Json.Value) : Option Hash :=
  v.asBytes?.bind fun bs => if h : bs.length = 32 then some ⟨bs, h⟩ else none

def ofSlots (it : Iteration) : List (Option Json.Value) → Option (ChainedEntry Time)
  | [seq, prevHash, entry, entryHash] => do
      let seq ← Json.required Json.Value.asNat? seq
      let prevHash ← Json.required asHash? prevHash
      let entry ← Json.required (AuditEntry.read K it) entry
      let entryHash ← Json.required asHash? entryHash
      some { seq, prevHash, entry, entryHash }
  | _ => none

/-- `serde_json::from_str(line)`. -/
def readLine (it : Iteration) (s : String) : Option (ChainedEntry Time) :=
  (Json.parseText s).bind fun v => (Json.slots names v).bind (ofSlots K it)

def back (it : Iteration) (c : ChainedEntry Time) : ChainedEntry Time :=
  { c with entry := c.entry.back it }

theorem asHash?_ofBytes (h : Hash) : asHash? (.ofBytes h.val) = some h := by
  rw [asHash?, Json.Value.asBytes?_ofBytes, Option.bind_some, dif_pos h.property]

/-- What a line is read as. -/
theorem readLine_line (it : Iteration) (c : ChainedEntry Time) :
    readLine K it (c.line K) = some (c.back it) := by
  have hnodup : ((c.members K).map Prod.fst).Nodup := by
    show names.Nodup
    decide
  have hslots : Json.slots names (Json.record (c.members K)) = some ((c.members K).map Prod.snd) :=
    Json.slots_record_self (c.members K) hnodup
  rw [readLine, line, Json.parseText_print, Option.bind_some, hslots, Option.bind_some]
  show ofSlots K it [_, _, _, _] = _
  simp only [ofSlots, Json.required, Json.Value.asNat?_ofNat, asHash?_ofBytes,
    AuditEntry.read_json, Option.bind_eq_bind, Option.bind_some]
  rfl

end ChainedEntry

/-! ## Chains -/

variable (H : Sha256)

namespace AuditChain

/-- The file that `export` writes: one line for each entry. -/
def exportChain (c : AuditChain Time) : List UInt8 :=
  Text.unlines (c.entries.map (ChainedEntry.line K))

/-- A chain read from a file, each map of it in an order of its own. -/
def ReadBack (file : List UInt8) (c : AuditChain Time) : Prop :=
  ∃ lines, (Text.fromUtf8? file).map Text.lines = some lines ∧
    List.Forall₂ (fun line chained => ∃ it, ChainedEntry.readLine K it line = some chained)
      lines c.entries

theorem isLine_line (c : ChainedEntry Time) : Text.IsLine (c.line K) := Json.isLine_print _

/-- What an exported chain is read as. -/
theorem readBack_export_iff {c c' : AuditChain Time} :
    ReadBack K (c.exportChain K) c' ↔
      List.Forall₂ (fun chained chained' => ∃ it, chained' = ChainedEntry.back it chained)
        c.entries c'.entries := by
  have hlines : (Text.fromUtf8? (c.exportChain K)).map Text.lines
      = some (c.entries.map (ChainedEntry.line K)) :=
    Text.lines_unlines (List.forall_mem_map.mpr fun chained _ => isLine_line K chained)
  have hall : List.Forall₂
        (fun line chained => ∃ it, ChainedEntry.readLine K it line = some chained)
        (c.entries.map (ChainedEntry.line K)) c'.entries ↔
      List.Forall₂ (fun chained chained' => ∃ it, chained' = ChainedEntry.back it chained)
        c.entries c'.entries := by
    rw [List.forall₂_map_left_iff]
    simp only [ChainedEntry.readLine_line, Option.some.injEq, eq_comm]
  rw [← hall, ReadBack, hlines]
  constructor
  · rintro ⟨lines, hsome, h⟩
    obtain rfl := Option.some.inj hsome
    exact h
  · intro h
    exact ⟨_, rfl, h⟩

/-- Entries that follow each other still do when their texts stay as they were. -/
theorem follows_of_forall₂ {start : Hash} {entries entries' : List (ChainedEntry Time)}
    (h : Follows K H start entries)
    (hsame : List.Forall₂ (fun a b : ChainedEntry Time => b.prevHash = a.prevHash ∧
      b.entryHash = a.entryHash ∧ b.entry.canonical K = a.entry.canonical K) entries entries') :
    Follows K H start entries' := by
  induction hsame generalizing start with
  | nil => exact h
  | cons hhead _ ih =>
      obtain ⟨hprev, hhash, hrest⟩ := (follows_cons K H).mp h
      obtain ⟨hprev', hhash', htext⟩ := hhead
      refine (follows_cons K H).mpr ⟨hprev'.trans hprev, ?_, ?_⟩
      · rw [hhash', htext]
        exact hhash
      · rw [hhash']
        exact ih hrest

/-- Each of them carries the hash of its own text behind the hash it names. -/
theorem Follows.hash_of_mem {start : Hash} {entries : List (ChainedEntry Time)}
    (h : Follows K H start entries) {chained : ChainedEntry Time} (hmem : chained ∈ entries) :
    chained.entryHash = (links K H).link chained.prevHash (chained.entry.canonical K) := by
  induction entries generalizing start with
  | nil => cases hmem
  | cons first rest ih =>
      obtain ⟨hprev, hhash, hrest⟩ := (follows_cons K H).mp h
      rcases List.mem_cons.mp hmem with rfl | hmem
      · rw [hprev]
        exact hhash
      · exact ih hrest hmem

/-- The entries of a chain are what was appended. -/
theorem entries_appendAll (c : AuditChain Time) (es : List (AuditEntry Time)) :
    (c.appendAll K H es).entries.map ChainedEntry.entry =
      c.entries.map ChainedEntry.entry ++ es := by
  induction es generalizing c with
  | nil => exact (List.append_nil _).symm
  | cons e es ih =>
      have hstep : (c.append K H e).2.entries.map ChainedEntry.entry
          = c.entries.map ChainedEntry.entry ++ [e] := List.map_append
      show ((c.append K H e).2.appendAll K H es).entries.map _ = _
      rw [ih, hstep, List.append_assoc]
      rfl

/-! ## Canonical chains -/

/-- The hash of an entry does not depend on the order of its metadata. -/
def Canonical (e : AuditEntry Time) : Prop :=
  ∀ m, e.metadata.Same m → ∀ prevHash,
    computeHash K H prevHash (e.reordered m) = computeHash K H prevHash e

/-- Exported and read back, the chain verifies. -/
def Survives (c : AuditChain Time) : Prop :=
  ∀ c', ReadBack K (c.exportChain K) c' → (c'.verify K H).valid = true

/-- No other order of an entry's metadata has the hash of the entry. -/
def OrderFree (c : AuditChain Time) : Prop :=
  ∀ chained ∈ c.entries, ∀ m, chained.entry.metadata.Same m →
    (links K H).link chained.prevHash ((chained.entry.reordered m).canonical K)
        = chained.entryHash →
      (chained.entry.reordered m).canonical K = chained.entry.canonical K

theorem canonical_of_single {e : AuditEntry Time} (h : e.Single) : Canonical K H e := by
  intro m hm prevHash
  rw [computeHash_eq, computeHash_eq, AuditEntry.canonical_eq K h hm]

theorem survives_of_single {c : AuditChain Time} (hintact : Intact K H (genesisHash H) c)
    (h : ∀ chained ∈ c.entries, chained.entry.Single) : Survives K H c := by
  intro c' hread
  refine (valid_verifyFrom_iff K H).mpr (follows_of_forall₂ K H hintact.follows ?_)
  have hback := (readBack_export_iff K).mp hread
  refine List.forall₂_iff_get.mpr ⟨hback.length_eq, ?_⟩
  intro i hi hi'
  obtain ⟨it, hit⟩ := hback.get hi hi'
  rw [hit]
  refine ⟨rfl, rfl, ?_⟩
  have hsingle := h _ (List.get_mem c.entries ⟨i, hi⟩)
  exact (AuditEntry.canonical_back K it _).trans
    (AuditEntry.canonical_eq K hsingle (it.same _))

/-- This order for one map, every other map as it is. -/
def iterationOf {m n : Metadata} (h : m.Same n) : Iteration where
  arrange k := if k = m then n else k
  same k := by
    split
    next hk => exact hk ▸ h
    next => exact List.Perm.refl _

theorem single_of_canonical {c : AuditChain Time} (hintact : Intact K H (genesisHash H) c)
    (hfree : OrderFree K H c) {chained : ChainedEntry Time} (hmem : chained ∈ c.entries)
    (h : Canonical K H chained.entry) : chained.entry.Single := by
  by_contra hsingle
  obtain ⟨m, hm, hne⟩ := AuditEntry.exists_reordered K hsingle
  have hhash := Except.ok.inj (h m hm chained.prevHash)
  exact hne (hfree chained hmem m hm
    (hhash.trans (hintact.follows.hash_of_mem K H hmem).symm))

theorem single_of_survives {c : AuditChain Time} (hfree : OrderFree K H c)
    (h : Survives K H c) {chained : ChainedEntry Time} (hmem : chained ∈ c.entries) :
    chained.entry.Single := by
  by_contra hsingle
  obtain ⟨m, hm, hne⟩ := AuditEntry.exists_reordered K hsingle
  let it := iterationOf hm
  have hread : ReadBack K (c.exportChain K) ⟨c.entries.map (ChainedEntry.back it), c.headHash⟩ := by
    rw [readBack_export_iff, List.forall₂_map_right_iff, List.forall₂_same]
    intro x _
    exact ⟨it, rfl⟩
  have hfollows := (valid_verifyFrom_iff K H).mp (h _ hread)
  have hhash := hfollows.hash_of_mem K H (List.mem_map_of_mem (f := ChainedEntry.back it) hmem)
  have htext : (ChainedEntry.back it chained).entry.canonical K
      = (chained.entry.reordered m).canonical K := by
    have harrange : it.arrange chained.entry.metadata = m := if_pos rfl
    rw [← harrange]
    exact AuditEntry.canonical_back K it chained.entry
  rw [htext] at hhash
  exact hne (hfree chained hmem m hm hhash.symm)

/-- Of a chain that was appended to: its hashes do not depend on the order of the metadata, and it
verifies when it is exported and read back, exactly when no entry has more than one key. -/
theorem exported_iff (es : List (AuditEntry Time))
    (hfree : OrderFree K H ((new H).appendAll K H es)) :
    ((∀ e ∈ es, Canonical K H e) ↔ ∀ e ∈ es, e.Single) ∧
      (Survives K H ((new H).appendAll K H es) ↔ ∀ e ∈ es, e.Single) := by
  have hintact := intact_appendAll K H (intact_chain K H .new) es
  have hentries := entries_appendAll K H (new H) es
  have hmem : ∀ e ∈ es, ∃ chained ∈ ((new H).appendAll K H es).entries, chained.entry = e := by
    intro e he
    have hin : e ∈ ((new H).appendAll K H es).entries.map ChainedEntry.entry := hentries ▸ he
    exact List.mem_map.mp hin
  refine ⟨⟨?_, ?_⟩, ?_, ?_⟩
  · intro hcanonical e he
    obtain ⟨chained, hchained, rfl⟩ := hmem e he
    exact single_of_canonical K H hintact hfree hchained (hcanonical _ he)
  · intro hsingle e he
    exact canonical_of_single K H (hsingle e he)
  · intro hsurvives e he
    obtain ⟨chained, hchained, rfl⟩ := hmem e he
    exact single_of_survives K H hfree hsurvives hchained
  · intro hsingle
    refine survives_of_single K H hintact fun chained hchained => hsingle _ ?_
    have hin := List.mem_map_of_mem (f := ChainedEntry.entry) hchained
    rw [hentries] at hin
    exact hin

theorem digest_of_computeHash {e f : AuditEntry Time} {prevHash : Hash}
    (h : computeHash K H prevHash e = computeHash K H prevHash f) :
    H.digest (prevHash.val ++ Text.bytes (e.canonical K))
      = H.digest (prevHash.val ++ Text.bytes (f.canonical K)) :=
  congrArg Subtype.val (Except.ok.inj h)

/-! ## A sample -/

/-- A chain whose entries have one key at most has no other orders. -/
theorem orderFree_of_single {c : AuditChain Time}
    (h : ∀ chained ∈ c.entries, chained.entry.Single) : OrderFree K H c := by
  intro chained hmem m hm _
  exact AuditEntry.canonical_eq K (h chained hmem) hm

/-- The tool an entry was made with, and its target. -/
def tool : String × String := ("tool", "vim")

def target : String × String := ("target", "a.txt")

def toolOnly : Metadata := ⟨[tool], by decide⟩

def targetFirst : Metadata := ⟨[target, tool], by decide⟩

def toolFirst : Metadata := ⟨[tool, target], by decide⟩

/-- The digests of the genesis seed, and of one entry behind it. -/
def orderSha : Sha256 :=
  let text (m : Metadata) := Text.bytes ((openEntry m).canonical Codecs.sample)
  tableSha
    [(Text.bytes genesisSeed, 0xc14b478def96da5d7baf23a9e9e14ccfff0a8de45d647b1e0c12a6e53bd38d69),
      (genesisBytes ++ text targetFirst,
        0xcfac035c70f0cd73e8fddf5278a5d955decbb3a8f5423667bea6729c11122aeb),
      (genesisBytes ++ text toolFirst,
        0xff76e087ae5e8aacd48cf9c1b040f5d933046de924c8333a807f80def3a87e5b),
      (genesisBytes ++ text toolOnly,
        0x7d8c10371d7b3b12f2dcbb1986ce8766e5adc08faa0dec1470e02a543d149613)]

/-- The two orders of two keys have two digests. -/
theorem digest_toolFirst_ne :
    orderSha.digest ((genesisHash orderSha).val ++
        Text.bytes ((openEntry toolFirst).canonical Codecs.sample)) ≠
      orderSha.digest ((genesisHash orderSha).val ++
        Text.bytes ((openEntry targetFirst).canonical Codecs.sample)) := by
  intro hdigest
  have hgenesis : (genesisHash orderSha).val = genesisBytes := digest_head _ _ _
  have hbehind : ∀ text : List UInt8, genesisBytes ++ text ≠ Text.bytes genesisSeed := by
    intro text heq
    have hlength := congrArg List.length heq
    have hseed : (Text.bytes genesisSeed).length = 15 := by decide
    have hbytes : genesisBytes.length = 32 := by decide
    rw [List.length_append, hseed, hbytes] at hlength
    omega
  -- The two texts show the two orders.
  have hother : genesisBytes ++ Text.bytes ((openEntry toolFirst).canonical Codecs.sample) ≠
      genesisBytes ++ Text.bytes ((openEntry targetFirst).canonical Codecs.sample) := by
    intro heq
    have htext := Text.bytes_injective (List.append_cancel_left heq)
    have horder : [tool, target] = [target, tool] :=
      AuditEntry.canonical_reordered Codecs.sample (e := openEntry targetFirst)
        (m := toolFirst) htext
    exact absurd horder (by decide)
  rw [hgenesis, orderSha, digest_of_ne (hbehind _), digest_of_ne hother, digest_head,
    digest_of_ne (hbehind _), digest_head] at hdigest
  exact absurd hdigest (by decide)

/-- Of the two orders, only the one that was appended has the hash. -/
theorem orderFree_targetFirst : OrderFree Codecs.sample orderSha
    ((new orderSha).appendAll Codecs.sample orderSha [openEntry targetFirst]) := by
  intro chained hmem m hm hhash
  have hfollows := (intact_appendAll Codecs.sample orderSha
    (intact_chain Codecs.sample orderSha .new) [openEntry targetFirst]).follows
  obtain ⟨hentry, hprev⟩ : chained.entry = openEntry targetFirst ∧
      chained.prevHash = genesisHash orderSha := by
    obtain rfl := List.mem_singleton.mp hmem
    exact ⟨rfl, rfl⟩
  rw [hfollows.hash_of_mem Codecs.sample orderSha hmem, hentry, hprev] at hhash
  rw [hentry] at hm ⊢
  have horder : [target, tool].Perm m.entries := hm
  rcases List.pair_perm.mp horder with h | h
  · obtain rfl : m = targetFirst := Metadata.ext_entries h
    rfl
  · obtain rfl : m = toolFirst := Metadata.ext_entries h
    have hcompute : computeHash Codecs.sample orderSha (genesisHash orderSha) (openEntry toolFirst)
        = computeHash Codecs.sample orderSha (genesisHash orderSha) (openEntry targetFirst) := by
      rw [computeHash_eq, computeHash_eq, ← hhash]
      rfl
    exact absurd (digest_of_computeHash Codecs.sample orderSha hcompute) digest_toolFirst_ne

/-- One key, and two. -/
theorem exported_iff_tool :
    (((∀ e ∈ [openEntry toolOnly], Canonical Codecs.sample orderSha e) ↔
        ∀ e ∈ [openEntry toolOnly], e.Single) ∧
      (Survives Codecs.sample orderSha
          ((new orderSha).appendAll Codecs.sample orderSha [openEntry toolOnly]) ↔
        ∀ e ∈ [openEntry toolOnly], e.Single)) ∧
    ((∀ e ∈ [openEntry targetFirst], Canonical Codecs.sample orderSha e) ↔
        ∀ e ∈ [openEntry targetFirst], e.Single) ∧
      (Survives Codecs.sample orderSha
          ((new orderSha).appendAll Codecs.sample orderSha [openEntry targetFirst]) ↔
        ∀ e ∈ [openEntry targetFirst], e.Single) := by
  refine ⟨exported_iff Codecs.sample orderSha _ (orderFree_of_single _ _ ?_),
    exported_iff Codecs.sample orderSha _ orderFree_targetFirst⟩
  intro chained hmem
  obtain rfl := List.mem_singleton.mp hmem
  exact Nat.le_refl 1

/-- Two keys in two orders have two hashes. -/
theorem not_exported : ¬ ∀ es : List (AuditEntry { s : String // Json.escapedLen s ≤ 40 }),
    (∀ e ∈ es, Canonical Codecs.sample orderSha e) ∧
      Survives Codecs.sample orderSha ((new orderSha).appendAll Codecs.sample orderSha es) := by
  intro h
  have hcanonical := (h [openEntry targetFirst]).1 _ List.mem_cons_self
  exact digest_toolFirst_ne (digest_of_computeHash Codecs.sample orderSha
    (hcanonical toolFirst (List.Perm.swap _ _ _) (genesisHash orderSha)))

end AuditChain

end Hal.Chain

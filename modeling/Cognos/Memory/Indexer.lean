/-
# `Cognos.Memory.Indexer` — the store of embedded files

`indexer.rs`: a file below one of the allowed roots is read, embedded and appended to the
store as a line of JSON; the records of the store are the lines that can be read, and a wipe
of a domain rewrites the store with those of other domains.  A system call can fail, and
a write can end after any number of bytes.

    readLine_line    a record whose numbers are finite reads back, and no other
    indexFile_adds   what must be so for a file's record to get into the store
-/
import Mathlib
import Cognos.Lib.Codecs
import Cognos.Lib.PathWalk
import Cognos.Lib.Text
import Cognos.Memory.IndexQueue

namespace Memory

open IndexQueue (IndexError)

/-! ## Records -/

/-- One stored embedding with full provenance. -/
structure IndexRecord where
  path : String
  embeddedAt : String
  embedder : String
  domain : Option String
  preview : String
  embedding : List Float32

namespace IndexRecord

variable {Time : Type} (K : Codecs Time)

def names : List String := ["path", "embedded_at", "embedder", "domain", "preview", "embedding"]

/-- The members, with a value for the embedding. -/
def numbered (r : IndexRecord) (embedding : Json.Value) : List (String × Option Json.Value) :=
  [("path", some (.str r.path)), ("embedded_at", some (.str r.embeddedAt)),
    ("embedder", some (.str r.embedder)), ("domain", some ((r.domain.map .str).getD .null)),
    ("preview", some (.str r.preview)), ("embedding", some embedding)]

def members (r : IndexRecord) : List (String × Option Json.Value) :=
  r.numbered (.arr (r.embedding.map K.f32))

/-- `Vec<f32>` asked for. -/
def readNumbers? : Json.Value → Option (List Float32)
  | .arr vs => vs.mapM K.readF32?
  | _ => none

def ofSlots : List (Option Json.Value) → Option IndexRecord
  | [path, embeddedAt, embedder, domain, preview, embedding] => do
      let path ← Json.required Json.Value.asStr? path
      let embeddedAt ← Json.required Json.Value.asStr? embeddedAt
      let embedder ← Json.required Json.Value.asStr? embedder
      let domain ← Json.optional Json.Value.asStr? domain
      let preview ← Json.required Json.Value.asStr? preview
      let embedding ← Json.required (readNumbers? K) embedding
      some { path, embeddedAt, embedder, domain, preview, embedding }
  | _ => none

/-- `serde_json::to_string(r)`. -/
def line (r : IndexRecord) : String := (Json.record (r.members K)).print

/-- `serde_json::from_str::<IndexRecord>(line)`. -/
def readLine (s : String) : Option IndexRecord :=
  (Json.parseText s).bind fun v => (Json.slots names v).bind (ofSlots K)

/-- All numbers of the embedding are finite. -/
def Finite (r : IndexRecord) : Prop := ∀ x ∈ r.embedding, x.isFinite = true

instance (r : IndexRecord) : Decidable r.Finite := by
  unfold Finite
  infer_instance

theorem isLine_line (r : IndexRecord) : Text.IsLine (r.line K) := Json.isLine_print _

theorem readNumbers_finite {xs : List Float32} (h : ∀ x ∈ xs, x.isFinite = true) :
    readNumbers? K (.arr (xs.map K.f32)) = some xs := by
  show (xs.map K.f32).mapM K.readF32? = some xs
  rw [List.mapM_map]
  induction xs with
  | nil => rfl
  | cons x xs ih =>
      obtain ⟨hx, hxs⟩ := List.forall_mem_cons.mp h
      rw [List.mapM_cons, ih hxs, Function.comp_apply, K.readF32?_f32 hx]
      rfl

/-- What is not finite is written as `null`, and `null` is no number. -/
theorem readNumbers_infinite {xs : List Float32} (h : ¬ ∀ x ∈ xs, x.isFinite = true) :
    readNumbers? K (.arr (xs.map K.f32)) = none := by
  show (xs.map K.f32).mapM K.readF32? = none
  rw [List.mapM_map]
  induction xs with
  | nil => exact absurd (List.forall_mem_nil _) h
  | cons x xs ih =>
      rw [List.mapM_cons, Function.comp_apply]
      by_cases hx : x.isFinite = true
      · have hxs : ¬ ∀ x ∈ xs, x.isFinite = true := fun hxs =>
          h (List.forall_mem_cons.mpr ⟨hx, hxs⟩)
        rw [ih hxs, K.readF32?_f32 hx]
        rfl
      · rw [Codecs.f32, if_neg hx]
        rfl

/-- A record's line with whatever value for the embedding. -/
theorem readLine_numbered (r : IndexRecord) (embedding : Json.Value) :
    readLine K (Json.record (r.numbered embedding)).print =
      (readNumbers? K embedding).map fun xs => { r with embedding := xs } := by
  have hslots : Json.slots names (Json.record (r.numbered embedding)) =
      some ((r.numbered embedding).map Prod.snd) := by
    have hnodup : ((r.numbered embedding).map Prod.fst).Nodup := by
      have hnames : (r.numbered embedding).map Prod.fst = names := rfl
      rw [hnames]
      decide
    exact Json.slots_record_self (r.numbered embedding) hnodup
  have hdomain : Json.optional Json.Value.asStr? (some ((r.domain.map .str).getD .null)) =
      some r.domain := by
    cases r.domain with
    | none => rfl
    | some d => rfl
  rw [readLine, Json.parseText_print, Option.bind_some, hslots, Option.bind_some]
  show ofSlots K [_, _, _, _, _, _] = _
  simp only [ofSlots, Json.required, Json.Value.asStr?, hdomain, Option.bind_eq_bind,
    Option.bind_some]
  cases readNumbers? K embedding with
  | none => rfl
  | some xs => rfl

/-- A record reads back when its numbers are finite, and its line is no record otherwise. -/
theorem readLine_line (r : IndexRecord) :
    readLine K (r.line K) = if r.Finite then some r else none := by
  rw [line, members, readLine_numbered]
  by_cases h : r.Finite
  · rw [if_pos h, readNumbers_finite K h]
    rfl
  · rw [if_neg h, readNumbers_infinite K h]
    rfl

end IndexRecord

/-! ## Paths and contents -/

/-- `Path::components`, each as `as_os_str` gives it. -/
def pathComponents (path : String) : List String :=
  let parts := LexPath.components path
  let start :=
    if path.toList.head? = some '/' then ["/"] else if parts.head? = some "." then ["."] else []
  start ++ parts.filter fun c => decide (c ≠ "" ∧ c ≠ ".")

/-- Project domain from path structure: the segment after "projects". -/
def deriveDomain (path : String) : Option String :=
  let parts := (pathComponents path).map Text.toLowercase
  if "projects" ∈ parts then parts[parts.idxOf "projects" + 1]? else none

/-- Between two bytes of a UTF-8 text: what the bytes of a character begun say so far, how many
are to come, and the range of the next. -/
structure Begun where
  code : Nat
  toCome : Nat
  low : Nat
  high : Nat

/-- A byte where a character begins. -/
def beginChar (b : Nat) : List Char × Option Begun :=
  if b < 0x80 then ([Char.ofNat b], none)
  else if 0xC2 ≤ b ∧ b ≤ 0xDF then ([], some ⟨b % 32, 1, 0x80, 0xBF⟩)
  else if 0xE0 ≤ b ∧ b ≤ 0xEF then
    ([], some ⟨b % 16, 2, if b = 0xE0 then 0xA0 else 0x80, if b = 0xED then 0x9F else 0xBF⟩)
  else if 0xF0 ≤ b ∧ b ≤ 0xF4 then
    ([], some ⟨b % 8, 3, if b = 0xF0 then 0x90 else 0x80, if b = 0xF4 then 0x8F else 0xBF⟩)
  else ([Char.ofNat 0xFFFD], none)

/-- `String::from_utf8_lossy`: what is no UTF-8 is replaced by U+FFFD. -/
def lossyGo : Option Begun → List UInt8 → List Char
  | none, [] => []
  | some _, [] => [Char.ofNat 0xFFFD]
  | none, b :: bs => (beginChar b.toNat).1 ++ lossyGo (beginChar b.toNat).2 bs
  | some g, b :: bs =>
      if g.low ≤ b.toNat ∧ b.toNat ≤ g.high then
        let code := g.code * 64 + b.toNat % 64
        if g.toCome = 1 then Char.ofNat code :: lossyGo none bs
        else lossyGo (some ⟨code, g.toCome - 1, 0x80, 0xBF⟩) bs
      else Char.ofNat 0xFFFD :: ((beginChar b.toNat).1 ++ lossyGo (beginChar b.toNat).2 bs)

def fromUtf8Lossy (bs : List UInt8) : String := String.ofList (lossyGo none bs)

example : fromUtf8Lossy [0x61, 0xC3, 0xA4, 0xE2, 0x82, 0x62, 0xFF] = "a\u00e4\ufffdb\ufffd" := by
  decide +kernel

/-! ## The indexer -/

structure Embedder where
  name : String
  embed : String → List Float32

structure Indexer where
  embedder : Embedder
  allowedRoots : List String

/-- The store's file: the bytes in it, if it is there. -/
abbrev Store := Option (List UInt8)

/-- Files larger than this are never read. -/
def maxFileBytes : Nat := 1048576

def previewChars : Nat := 160

/-- Where a call of `index_file` runs, and how its system calls end.  Of the line it appends
`appended` bytes get into the store, if that can be opened. -/
structure Surroundings where
  lay : PathWalk.Layout
  links : Nat
  cwd : List String
  now : String
  metadata : Bool
  read : Bool
  appended : Option Nat

namespace Indexer

variable {Time : Type} (K : Codecs Time) (idx : Indexer)

def inScope (path : String) : Bool :=
  idx.allowedRoots.any fun root => (pathComponents root).isPrefixOf (pathComponents path)

/-- The contents of the regular file the path leads to. -/
def contentAt (w : Surroundings) (path : String) : Option (List UInt8) :=
  match (PathWalk.resolve w.lay w.links w.cwd path).bind w.lay with
  | some (.file content) => some content
  | _ => none

/-- The record of a file. -/
def recordOf (w : Surroundings) (path : String) (content : List UInt8) : IndexRecord :=
  let text := fromUtf8Lossy content
  { path := path
    embeddedAt := w.now
    embedder := idx.embedder.name
    domain := deriveDomain path
    preview := String.ofList (text.toList.take previewChars)
    embedding := idx.embedder.embed text }

/-- `index_file`: what it returns, and what it adds to the store. -/
def indexFile (w : Surroundings) (path : String) : Except IndexError Bool × List UInt8 :=
  if !idx.inScope path then (.ok false, [])
  else if !w.metadata then (.ok false, [])
  else
    match contentAt w path with
    | none => (.ok false, [])
    | some content =>
        if maxFileBytes < content.length then (.ok false, [])
        else if !w.read then (.error .io, [])
        else if (content.take 512).any (· == 0) then (.ok false, [])
        else
          let line := Text.bytes ((idx.recordOf w path content).line K ++ "\n")
          match w.appended with
          | none => (.error .io, [])
          | some n => if n < line.length then (.error .io, line.take n) else (.ok true, line)

/-- What must be so for the path's record to get into the store, in part at least. -/
structure Indexable (w : Surroundings) (path : String) : Prop where
  inScope : idx.inScope path = true
  granted : w.metadata = true ∧ w.read = true ∧ w.appended ≠ none ∧ w.appended ≠ some 0
  content : ∃ content, contentAt w path = some content ∧ content.length ≤ maxFileBytes ∧
    0 ∉ content.take 512

theorem line_ne_nil (r : IndexRecord) : Text.bytes (r.line K ++ "\n") ≠ [] := by
  rw [Text.bytes_append]
  exact List.append_ne_nil_of_right_ne_nil _ (by decide)

theorem indexFile_adds {w : Surroundings} {path : String} :
    (idx.indexFile K w path).2 ≠ [] ↔ idx.Indexable w path := by
  unfold indexFile
  by_cases hscope : idx.inScope path = true
  swap
  · rw [if_pos (by simp [hscope])]
    exact iff_of_false (fun h => h rfl) fun h => hscope h.inScope
  rw [if_neg (by simp [hscope])]
  by_cases hmeta : w.metadata = true
  swap
  · rw [if_pos (by simp [hmeta])]
    exact iff_of_false (fun h => h rfl) fun h => hmeta h.granted.1
  rw [if_neg (by simp [hmeta])]
  cases hcontent : contentAt w path with
  | none =>
      refine iff_of_false (fun h => h rfl) fun h => ?_
      obtain ⟨content, hsome, -⟩ := h.content
      rw [hcontent] at hsome
      cases hsome
  | some content =>
      have hthis : idx.Indexable w path → content.length ≤ maxFileBytes ∧ 0 ∉ content.take 512 := by
        intro h
        obtain ⟨content', hsome, hok⟩ := h.content
        rw [hcontent] at hsome
        exact Option.some.inj hsome ▸ hok
      dsimp only
      by_cases hlarge : maxFileBytes < content.length
      · rw [if_pos hlarge]
        exact iff_of_false (fun h => h rfl) fun h => absurd (hthis h).1 (not_le.mpr hlarge)
      rw [if_neg hlarge]
      by_cases hread : w.read = true
      swap
      · rw [if_pos (by simp [hread])]
        exact iff_of_false (fun h => h rfl) fun h => hread h.granted.2.1
      rw [if_neg (by simp [hread])]
      by_cases hbinary : 0 ∈ content.take 512
      · rw [if_pos (List.any_eq_true.mpr ⟨0, hbinary, rfl⟩)]
        exact iff_of_false (fun h => h rfl) fun h => (hthis h).2 hbinary
      have hplain : ¬ (content.take 512).any (· == 0) = true := by
        rw [List.any_eq_true]
        rintro ⟨b, hb, hzero⟩
        exact hbinary (beq_iff_eq.mp hzero ▸ hb)
      rw [if_neg hplain]
      have hline := line_ne_nil K (idx.recordOf w path content)
      cases happended : w.appended with
      | none => exact iff_of_false (fun h => h rfl) fun h => h.granted.2.2.1 happended
      | some n =>
          dsimp only
          have hgranted : idx.Indexable w path ↔ n ≠ 0 := by
            constructor
            · rintro h rfl
              exact h.granted.2.2.2 happended
            · intro hn
              refine ⟨hscope, ⟨hmeta, hread, ?_, ?_⟩, content, hcontent, not_lt.mp hlarge, hbinary⟩
              · rw [happended]
                exact Option.some_ne_none n
              · rw [happended]
                exact fun h => hn (Option.some.inj h)
          rw [hgranted]
          split
          · rw [Ne, List.take_eq_nil_iff, or_iff_left hline]
          · next hfull =>
            refine iff_of_true hline fun hzero => hfull ?_
            rw [hzero]
            exact List.length_pos_of_ne_nil hline

end Indexer

end Memory

/-
# `Cognos.Memory.DomainWipe` — what a wipe of a domain leaves

`wipe_domain` reads the records of the store, and writes the store again with those of other
domains.  An embedding can hold an infinity (a number beyond `f32` is read as one), which is
written as `null` and not read again; and a write that fails has emptied the file before.

    records_unlines   the records of a file that was written through
    records_cut       and of one that was cut short
    wipe_exact_iff    when a wipe takes the records of the domain and no other
-/
import Mathlib
import Cognos.Lib.Json.Prefix
import Cognos.Memory.Indexer

namespace Memory

open IndexQueue (IndexError)

variable {Time : Type} (K : Codecs Time)

/-! ## The records of a store -/

/-- The records on the lines of a text. -/
def recordsIn (content : String) : List IndexRecord :=
  (Text.lines content).filterMap (IndexRecord.readLine K)

/-- The records of a store; a store that is no UTF-8 cannot be read. -/
def recordsOf (store : Store) : Option (List IndexRecord) :=
  match store with
  | none => some []
  | some bs => (Text.fromUtf8? bs).map (recordsIn K)

theorem recordsOf_some (bs : List UInt8) :
    recordsOf K (some bs) = (Text.fromUtf8? bs).map (recordsIn K) := rfl

/-- `records`; `readable` is whether the system lets the file be opened and read. -/
def records (readable : Bool) (store : Store) : Except IndexError (List IndexRecord) :=
  match store with
  | none => .ok []
  | some _ =>
      if readable then
        match recordsOf K store with
        | some rs => .ok rs
        | none => .error .io
      else .error .io

/-- The record is not of the domain. -/
def outside (domain : String) (r : IndexRecord) : Bool := decide (r.domain ≠ some domain)

/-- The text the store is written again with. -/
def rewritten (kept : List IndexRecord) : List UInt8 := Text.unlines (kept.map (·.line K))

/-- `wipe_domain`: what it returns, and the store after it.  `fs::write` empties the file and
writes, and after `n` bytes it ends if it has not ended before; `none` is a file that cannot be
opened for writing. -/
def wipeDomain (readable : Bool) (written : Option Nat) (store : Store) (domain : String) :
    Except IndexError Nat × Store :=
  match records K readable store with
  | .error e => (.error e, store)
  | .ok rs =>
      let kept := rs.filter (outside domain)
      let removed := rs.length - kept.length
      let out := rewritten K kept
      match written with
      | none => (.error .io, store)
      | some n =>
          if n < out.length then (.error .io, some (out.take n)) else (.ok removed, some out)

/-- Exactly the records of the domain are gone, and so many were removed as is returned; where
an error is returned, no record is. -/
def Exact (store : Store) (domain : String) (after : Except IndexError Nat × Store) : Prop :=
  match after.1 with
  | .ok n => ∃ rs, recordsOf K store = some rs ∧
      recordsOf K after.2 = some (rs.filter fun r => decide (r.domain ≠ some domain)) ∧
      n = (rs.filter fun r => decide (r.domain = some domain)).length
  | .error _ => recordsOf K after.2 = recordsOf K store

/-! ## Written through -/

/-- The lines of records that read back. -/
theorem filterMap_lines (rs : List IndexRecord) :
    (rs.map (·.line K)).filterMap (IndexRecord.readLine K) =
      rs.filter fun r => decide r.Finite := by
  rw [List.filterMap_map]
  induction rs with
  | nil => rfl
  | cons r rs ih =>
      rw [List.filterMap_cons, Function.comp_apply, r.readLine_line K, ih]
      by_cases h : r.Finite
      · simp [h]
      · simp [h]

/-- A text of records gives back those with finite numbers. -/
theorem records_unlines (rs : List IndexRecord) :
    recordsOf K (some (rewritten K rs)) = some (rs.filter fun r => decide r.Finite) := by
  have hlines : ∀ l ∈ rs.map (·.line K), Text.IsLine l :=
    List.forall_mem_map.mpr fun r _ => r.isLine_line K
  have hread := Text.lines_unlines hlines
  obtain ⟨content, hcontent, hls⟩ := Option.map_eq_some_iff.mp hread
  rw [recordsOf_some, rewritten, hcontent, Option.map_some, recordsIn, hls, filterMap_lines]

/-! ## Cut short -/

theorem bytes_of_fromUtf8 {bs : List UInt8} {s : String} (h : Text.fromUtf8? bs = some s) :
    Text.bytes s = bs := by
  unfold Text.fromUtf8? String.fromUTF8? at h
  split at h
  · obtain rfl := Option.some.inj h
    rfl
  · cases h

/-- A piece of a text that is text is a piece of its characters. -/
theorem prefix_of_bytes {s t : String} {rest : List UInt8}
    (h : Text.bytes s ++ rest = Text.bytes t) : ∃ q, t.toList = s.toList ++ q := by
  have hencode : s.toList.utf8Encode ++ ⟨rest.toArray⟩ = t.toList.utf8Encode := by
    rw [String.utf8Encode_toList, String.utf8Encode_toList]
    apply ByteArray.ext
    rw [ByteArray.data_append]
    apply Array.toList_inj.mp
    rw [Array.toList_append]
    exact h
  obtain ⟨q, hq⟩ := List.isPrefix_of_utf8Encode_append_eq_utf8Encode _ hencode
  exact ⟨q, hq.symm⟩

/-- A line that has not ended is read as it is. -/
theorem linesGo_piece {p : List Char} (h : '\n' ∉ p) (acc : List Char) :
    Text.linesGo acc p = Text.linesGo (p.reverse ++ acc) [] := by
  induction p generalizing acc with
  | nil => rfl
  | cons c p ih =>
      obtain ⟨hc, hp⟩ := not_or.mp (mt List.mem_cons.mpr h)
      have hne : c ≠ '\n' := Ne.symm hc
      have hstep : Text.linesGo acc (c :: p) = Text.linesGo (c :: acc) p := by
        cases acc <;> simp [Text.linesGo]
      rw [hstep, ih hp, List.reverse_cons, List.append_assoc, List.singleton_append]

theorem linesGo_end {acc : List Char} (h : acc ≠ []) :
    Text.linesGo acc [] = [String.ofList acc.reverse] := by
  cases acc with
  | nil => exact absurd rfl h
  | cons c acc => rfl

/-- What is left of a record's line that is cut short is no record. -/
theorem readLine_cut (r : IndexRecord) {p c : List Char} (h : (r.line K).toList = p ++ c)
    (hc : c ≠ []) : IndexRecord.readLine K (String.ofList p) = none := by
  rw [IndexRecord.readLine, Json.parseText_cut h hc]
  rfl

/-- The characters of a text of records. -/
def chars (rs : List IndexRecord) : List Char := rs.flatMap fun r => (r.line K).toList ++ ['\n']

/-- A text of records that is cut short has fewer of them, unless only its last newline is
missing. -/
theorem readable_cut {rs : List IndexRecord} {p q : List Char} (h : chars K rs = p ++ q)
    (hq : q ≠ []) :
    ((Text.linesGo [] p).filterMap (IndexRecord.readLine K)).length ≤ rs.length ∧
      (((Text.linesGo [] p).filterMap (IndexRecord.readLine K)).length = rs.length →
        q = ['\n'] ∧ ∀ r ∈ rs, r.Finite) := by
  induction rs generalizing p with
  | nil =>
      obtain ⟨-, hnil⟩ := List.append_eq_nil_iff.mp h.symm
      exact absurd hnil hq
  | cons r rs ih =>
      have hline := (r.isLine_line K).1
      have hsplit : (r.line K).toList ++ ('\n' :: chars K rs) = p ++ q := by
        rw [← h, chars, chars, List.flatMap_cons, List.append_assoc]
        rfl
      -- the text ends within this line, or with it
      have hpiece : ∀ c, (r.line K).toList = p ++ c → q = c ++ '\n' :: chars K rs →
          ((Text.linesGo [] p).filterMap (IndexRecord.readLine K)).length ≤ (r :: rs).length ∧
            (((Text.linesGo [] p).filterMap (IndexRecord.readLine K)).length = (r :: rs).length →
              q = ['\n'] ∧ ∀ r' ∈ r :: rs, r'.Finite) := by
        intro c hL hq'
        have hp : '\n' ∉ p := fun hm => hline (hL ▸ List.mem_append_left c hm)
        rw [linesGo_piece hp, List.append_nil]
        by_cases hempty : p = []
        · subst hempty
          exact ⟨Nat.zero_le _, fun hlength => by cases hlength⟩
        rw [linesGo_end (mt List.reverse_eq_nil_iff.mp hempty), List.reverse_reverse,
          List.filterMap_cons, List.filterMap_nil]
        by_cases hc : c = []
        · subst hc
          rw [List.append_nil] at hL
          rw [← hL, String.ofList_toList, r.readLine_line K]
          by_cases hfin : r.Finite
          · rw [if_pos hfin]
            refine ⟨Nat.succ_le_succ (Nat.zero_le _), fun hlength => ?_⟩
            have hnil : rs = [] := List.length_eq_zero_iff.mp (Nat.succ.inj hlength).symm
            subst hnil
            exact ⟨hq', List.forall_mem_singleton.mpr hfin⟩
          · rw [if_neg hfin]
            exact ⟨Nat.zero_le _, fun hlength => by cases hlength⟩
        · rw [readLine_cut K r hL hc]
          exact ⟨Nat.zero_le _, fun hlength => by cases hlength⟩
      rcases List.append_eq_append_iff.mp hsplit with ⟨rest, hp, hrest⟩ | ⟨c, hL, hq'⟩
      · cases rest with
        | nil =>
            rw [List.append_nil] at hp
            refine hpiece [] ?_ hrest.symm
            rw [List.append_nil, hp]
        | cons d rest =>
            obtain ⟨rfl, hchars⟩ := List.cons.inj hrest
            obtain ⟨hle, heq⟩ := ih hchars
            rw [hp, Text.linesGo_append [] _ rest hline, List.append_nil,
              Text.endLine_reverse (r.isLine_line K).2, List.filterMap_cons, r.readLine_line K]
            by_cases hfin : r.Finite
            · rw [if_pos hfin]
              dsimp only
              rw [List.length_cons, List.length_cons]
              refine ⟨Nat.succ_le_succ hle, fun hlength => ?_⟩
              obtain ⟨hnewline, hall⟩ := heq (Nat.succ.inj hlength)
              exact ⟨hnewline, List.forall_mem_cons.mpr ⟨hfin, hall⟩⟩
            · rw [if_neg hfin]
              dsimp only
              rw [List.length_cons]
              exact ⟨Nat.le_succ_of_le hle, fun hlength => by omega⟩
      · exact hpiece c hL hq'

theorem rewritten_eq (rs : List IndexRecord) :
    rewritten K rs = Text.bytes (String.ofList (chars K rs)) := by
  rw [rewritten, Text.unlines_eq, List.flatMap_map]
  rfl

/-- What a cut leaves is fewer records, unless the text lacks its last newline only. -/
theorem records_cut {kept rs : List IndexRecord} {n : Nat} (hn : n < (rewritten K kept).length)
    (h : recordsOf K (some ((rewritten K kept).take n)) = some rs) :
    rs.length ≤ kept.length ∧ (rs.length = kept.length →
      (rewritten K kept).length = n + 1 ∧ ∀ r ∈ kept, r.Finite) := by
  obtain ⟨piece, hpiece, rfl⟩ := Option.map_eq_some_iff.mp h
  have hbytes := bytes_of_fromUtf8 hpiece
  obtain ⟨q, hq⟩ : ∃ q, (String.ofList (chars K kept)).toList = piece.toList ++ q := by
    have hwhole : Text.bytes piece ++ (rewritten K kept).drop n =
        Text.bytes (String.ofList (chars K kept)) := by
      rw [hbytes, List.take_append_drop, rewritten_eq]
    exact prefix_of_bytes hwhole
  have hlength : piece.utf8ByteSize = n := by
    rw [← Text.length_bytes, hbytes, List.length_take]
    omega
  have hsize : (rewritten K kept).length = n + (String.ofList q).utf8ByteSize := by
    rw [rewritten_eq, Text.length_bytes, ← hlength, ← String.utf8ByteSize_append,
      ← String.ofList_toList (s := String.ofList (chars K kept)), hq, String.ofList_append,
      String.ofList_toList]
  have hne : q ≠ [] := by
    rintro rfl
    rw [hsize] at hn
    exact absurd hn (Nat.lt_irrefl n)
  rw [String.toList_ofList] at hq
  obtain ⟨hle, heq⟩ := readable_cut K hq hne
  refine ⟨hle, fun hlength => ?_⟩
  obtain ⟨rfl, hfinite⟩ := heq hlength
  exact ⟨hsize, hfinite⟩

theorem whole_chars (rs : List IndexRecord) : Text.Whole (chars K rs) := by
  induction rs with
  | nil => exact Text.whole_nil
  | cons r rs ih => exact (Text.whole_line (r.line K).toList).append ih

/-- A last line is read alike with its newline and without. -/
theorem linesGo_last (r : IndexRecord) :
    Text.linesGo [] ((r.line K).toList ++ ['\n']) = Text.linesGo [] (r.line K).toList := by
  obtain ⟨hnewline, hreturn⟩ := r.isLine_line K
  rw [Text.linesGo_append [] _ [] hnewline, List.append_nil, Text.endLine_reverse hreturn,
    linesGo_piece hnewline, List.append_nil]
  have hne : (r.line K).toList.reverse ≠ [] := by
    intro hrev
    obtain ⟨body, hbody⟩ := Json.print_obj
      ((r.members K).filterMap fun m => m.2.map (m.1, ·))
    rw [List.reverse_eq_nil_iff, IndexRecord.line, Json.record, hbody] at hrev
    cases hrev
  rw [linesGo_end hne, List.reverse_reverse, String.ofList_toList]
  rfl

/-- Without its last newline the text still has all its records. -/
theorem records_newline {kept : List IndexRecord} {n : Nat}
    (hn : (rewritten K kept).length = n + 1) (hfin : ∀ r ∈ kept, r.Finite) :
    recordsOf K (some ((rewritten K kept).take n)) = some kept := by
  obtain ⟨front, last, rfl⟩ : ∃ front last, kept = front ++ [last] := by
    rcases List.eq_nil_or_concat' kept with rfl | ⟨front, last, rfl⟩
    · cases hn
    · exact ⟨front, last, rfl⟩
  have hchars : chars K (front ++ [last]) =
      chars K front ++ (last.line K).toList ++ ['\n'] := by
    rw [chars, List.flatMap_append, List.flatMap_singleton, ← List.append_assoc]
    rfl
  have hcut : (rewritten K (front ++ [last])).take n =
      Text.bytes (String.ofList (chars K front ++ (last.line K).toList)) := by
    have hsplit : rewritten K (front ++ [last]) =
        Text.bytes (String.ofList (chars K front ++ (last.line K).toList)) ++
          Text.bytes "\n" := by
      rw [rewritten_eq, hchars, String.ofList_append, Text.bytes_append]
    rw [hsplit, List.length_append] at hn
    rw [hsplit, List.take_left' (Nat.succ.inj hn)]
  have hall := records_unlines K (front ++ [last])
  rw [List.filter_eq_self.mpr fun r hr => decide_eq_true (hfin r hr)] at hall
  rw [← hall, hcut, rewritten_eq]
  rw [recordsOf_some, recordsOf_some, Text.fromUtf8?_bytes, Text.fromUtf8?_bytes,
    Option.map_some, Option.map_some, recordsIn, recordsIn, Text.lines, Text.lines,
    String.toList_ofList, String.toList_ofList, hchars,
    List.append_assoc, Text.linesGo_append_whole (whole_chars K front),
    Text.linesGo_append_whole (whole_chars K front), linesGo_last]

/-! ## The wipe -/

theorem records_ok {readable : Bool} {store : Store} {rs : List IndexRecord}
    (h : records K readable store = .ok rs) : recordsOf K store = some rs := by
  unfold records at h
  split at h
  · cases h
    rfl
  · split_ifs at h
    split at h
    · next hrs =>
      cases h
      exact hrs
    · cases h

/-- Nothing is lost by the wipe: the numbers of the records of other domains are finite, and the
file is written through, or up to its last newline where there was nothing to remove. -/
def Spared (readable : Bool) (written : Option Nat) (store : Store) (domain : String) : Prop :=
  ∀ rs n, records K readable store = .ok rs → written = some n →
    (∀ r ∈ rs, r.domain ≠ some domain → r.Finite) ∧
      ((rewritten K (rs.filter (outside domain))).length ≤ n ∨
        ((rewritten K (rs.filter (outside domain))).length = n + 1 ∧
          ∀ r ∈ rs, r.domain ≠ some domain))

/-- A rewrite that goes through loses the records that cannot be read again. -/
theorem exact_through_iff {store : Store} {domain : String} {rs : List IndexRecord}
    (hstore : recordsOf K store = some rs) :
    Exact K store domain (.ok (rs.length - (rs.filter (outside domain)).length),
        some (rewritten K (rs.filter (outside domain)))) ↔
      ∀ r ∈ rs.filter (outside domain), r.Finite := by
  have hcount : rs.length - (rs.filter (outside domain)).length =
      (rs.filter fun r => decide (r.domain = some domain)).length := by
    have hsum := List.length_eq_length_filter_add (l := rs) (outside domain)
    have hnot : (rs.filter fun r => !outside domain r) =
        rs.filter fun r => decide (r.domain = some domain) := by
      refine List.filter_congr fun r _ => ?_
      simp [outside]
    rw [hnot] at hsum
    omega
  unfold Exact
  dsimp only
  rw [records_unlines, hcount]
  constructor
  · rintro ⟨rs', hrs', hkept, -⟩ r hr
    rw [hstore] at hrs'
    obtain rfl := Option.some.inj hrs'
    have hsame : (rs.filter (outside domain)).filter (fun r => decide r.Finite) =
        rs.filter (outside domain) := Option.some.inj hkept
    exact of_decide_eq_true (List.filter_eq_self.mp hsame r hr)
  · intro hfin
    refine ⟨rs, hstore, ?_, rfl⟩
    rw [List.filter_eq_self.mpr fun r hr => decide_eq_true (hfin r hr)]
    rfl

/-- A rewrite that is cut short loses a record, unless there was none to remove and the text
lacks its last newline only. -/
theorem exact_cut_iff {store : Store} {domain : String} {rs : List IndexRecord} {n : Nat}
    (hstore : recordsOf K store = some rs)
    (hshort : n < (rewritten K (rs.filter (outside domain))).length) :
    Exact K store domain
        (.error .io, some ((rewritten K (rs.filter (outside domain))).take n)) ↔
      (∀ r ∈ rs.filter (outside domain), r.Finite) ∧
        ((rewritten K (rs.filter (outside domain))).length ≤ n ∨
          ((rewritten K (rs.filter (outside domain))).length = n + 1 ∧
            ∀ r ∈ rs, r.domain ≠ some domain)) := by
  have hnone : (∀ r ∈ rs, r.domain ≠ some domain) ↔ rs.filter (outside domain) = rs := by
    rw [List.filter_eq_self]
    simp [outside]
  rw [hnone, or_iff_right (not_le.mpr hshort)]
  show recordsOf K _ = recordsOf K store ↔ _
  rw [hstore]
  constructor
  · intro hsame
    obtain ⟨hle, heq⟩ := records_cut K hshort hsame
    have hlength := Nat.le_antisymm hle (List.length_filter_le _ _)
    obtain ⟨hnewline, hfin⟩ := heq hlength
    exact ⟨hfin, hnewline, List.filter_sublist.eq_of_length hlength.symm⟩
  · rintro ⟨hfin, hnewline, hkept⟩
    rw [records_newline K hnewline hfin, hkept]

/-- What a wipe does to a store that can be read, with a file that can be opened. -/
theorem exact_written_iff {readable : Bool} {store : Store} {rs : List IndexRecord}
    (hrecords : records K readable store = .ok rs) (domain : String) (n : Nat) :
    Exact K store domain (wipeDomain K readable (some n) store domain) ↔
      (∀ r ∈ rs, r.domain ≠ some domain → r.Finite) ∧
        ((rewritten K (rs.filter (outside domain))).length ≤ n ∨
          ((rewritten K (rs.filter (outside domain))).length = n + 1 ∧
            ∀ r ∈ rs, r.domain ≠ some domain)) := by
  have hstore := records_ok K hrecords
  have hkept : (∀ r ∈ rs, r.domain ≠ some domain → r.Finite) ↔
      ∀ r ∈ rs.filter (outside domain), r.Finite := by
    simp [outside, and_imp]
  rw [hkept, wipeDomain, hrecords]
  dsimp only
  split
  · next hshort => exact exact_cut_iff K hstore hshort
  · next hfull =>
    rw [and_iff_left (Or.inl (not_lt.mp hfull))]
    exact exact_through_iff K hstore

/-- A wipe takes the records of the domain and no other exactly when nothing is lost by it. -/
theorem wipe_exact_iff (readable : Bool) (written : Option Nat) (store : Store)
    (domain : String) :
    Exact K store domain (wipeDomain K readable written store domain) ↔
      Spared K readable written store domain := by
  unfold Spared
  cases hrecords : records K readable store with
  | error e =>
      rw [wipeDomain, hrecords]
      refine iff_of_true rfl fun rs n hrs => ?_
      cases hrs
  | ok rs =>
      cases written with
      | none =>
          rw [wipeDomain, hrecords]
          refine iff_of_true rfl fun rs n _ hn => ?_
          cases hn
      | some n =>
          rw [exact_written_iff K hrecords]
          constructor
          · rintro h rs' m hrs hm
            cases hrs
            cases hm
            exact h
          · exact fun h => h rs n rfl rfl

/-! ## A number beyond the range -/

/-- A record of the project alpha. -/
def motor : IndexRecord where
  path := "/home/user/projects/alpha/motor.py"
  embeddedAt := "2026-01-01T00:00:00+00:00"
  embedder := "hash-v0"
  domain := some "alpha"
  preview := "def control_motor(): pass"
  embedding := []

theorem isNumber_beyond : Json.isNumber "1e39".toList = true := by decide

def beyond : Json.NumLit := ⟨"1e39", isNumber_beyond⟩

def infinity : Float32 := 1 / 0

/-- The record's line with the number `1e39` for an embedding. -/
def motorLine : String := (Json.record (motor.numbered (.arr [.num beyond]))).print

def motorRead : IndexRecord := { motor with embedding := [infinity] }

/-- The number is read as an infinity. -/
theorem readLine_motor : IndexRecord.readLine K motorLine = some motorRead := by
  have hnumber : K.readF32? (.num beyond) = some infinity := K.readF32_above beyond rfl
  have hnumbers : IndexRecord.readNumbers? K (.arr [.num beyond]) = some [infinity] := by
    rw [IndexRecord.readNumbers?, List.mapM_cons, hnumber, List.mapM_nil]
    rfl
  rw [motorLine, IndexRecord.readLine_numbered, hnumbers]
  rfl

theorem records_motor : records K true (some (Text.unlines [motorLine])) = .ok [motorRead] := by
  have hline : ∀ l ∈ [motorLine], Text.IsLine l :=
    List.forall_mem_singleton.mpr (Json.isLine_print _)
  obtain ⟨content, hcontent, hlines⟩ := Option.map_eq_some_iff.mp (Text.lines_unlines hline)
  have hrecords : recordsOf K (some (Text.unlines [motorLine])) = some [motorRead] := by
    rw [recordsOf_some, hcontent, Option.map_some, recordsIn, hlines, List.filterMap_cons,
      readLine_motor]
    rfl
  rw [records, hrecords]
  rfl

/-- A record of the project beta. -/
def servo : IndexRecord := { motor with domain := some "beta" }

theorem records_both : records K true (some (rewritten K [motor, servo])) = .ok [motor, servo] := by
  have hfinite : ∀ r ∈ [motor, servo], r.Finite := by
    unfold IndexRecord.Finite
    intro r hr x hx
    rcases List.mem_pair.mp hr with rfl | rfl
    · cases hx
    · cases hx
  have hrecords := records_unlines K [motor, servo]
  rw [List.filter_eq_self.mpr fun r hr => decide_eq_true (hfinite r hr)] at hrecords
  rw [records, hrecords]
  rfl

/-- A wipe of another project loses that record, though the file is written through; and a wipe
whose write fails at the first byte loses the records of both projects. -/
theorem not_exact_motor :
    ¬ Exact Codecs.sample (some (Text.unlines [motorLine])) "beta"
        (wipeDomain Codecs.sample true (some 1000000) (some (Text.unlines [motorLine])) "beta") ∧
      ¬ Exact Codecs.sample (some (rewritten Codecs.sample [motor, servo])) "beta"
        (wipeDomain Codecs.sample true (some 0)
          (some (rewritten Codecs.sample [motor, servo])) "beta") := by
  constructor
  · rw [exact_written_iff Codecs.sample (records_motor Codecs.sample)]
    rintro ⟨hfinite, -⟩
    have hmotor := hfinite motorRead List.mem_cons_self (by decide) infinity List.mem_cons_self
    exact absurd hmotor (by decide)
  · rw [exact_written_iff Codecs.sample (records_both Codecs.sample)]
    rintro ⟨-, hlength | ⟨-, hnone⟩⟩
    · have hkept : [motor, servo].filter (outside "beta") = [motor] := rfl
      rw [hkept, Nat.le_zero, List.length_eq_zero_iff, rewritten, Text.unlines,
        List.map_singleton, List.flatMap_singleton] at hlength
      exact Indexer.line_ne_nil Codecs.sample motor hlength
    · exact hnone servo (List.mem_pair.mpr (Or.inr rfl)) rfl

end Memory

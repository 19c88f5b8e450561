/-
# `Cognos.Lib.Json.Record` — records as JSON objects

How derived (de)serialisers map a record to JSON and back.  A record is written as
an object with its members in a fixed order, the absent ones left out (`record`).
It is read from an object by name, any order, unknown names ignored and a repeated
known name refused, or from an array by position (`slots`).  `required` and
`optional` read one slot.

    slots_record     a written record gives every slot back
    size_print       how many bytes a value's text takes
    fromSlice_toVec  bytes written are bytes read
    recordFromSlice  what a reader skips it does not decode
-/
import Mathlib
import Cognos.Lib.Json.Value

namespace Json

/-! ## Writing and reading records -/

/-- The object of the members that are present. -/
def record (ms : List (String × Option Value)) : Value :=
  .obj (ms.filterMap fun m => m.2.map (m.1, ·))

/-- What a derived reader finds for each of its names. -/
def slots (names : List String) : Value → Option (List (Option Value))
  | .obj fs =>
      if ((fs.map Prod.fst).filter (· ∈ names)).Nodup then
        some (names.map (fun n => fs.lookup n))
      else none
  | .arr vs => if vs.length = names.length then some (vs.map some) else none
  | _ => none

/-- A slot that must be filled. -/
def required {α : Type} (rd : Value → Option α) : Option Value → Option α
  | some v => rd v
  | none => none

/-- A slot of an `Option`: nothing and `null` are both `None`. -/
def optional {α : Type} (rd : Value → Option α) : Option Value → Option (Option α)
  | none => some none
  | some .null => some none
  | some v => (rd v).map some

theorem optional_of_read {α : Type} {rd : Value → Option α} {v : Value} {x : α}
    (h : rd v = some x) (hnull : rd .null = none) : optional rd (some v) = some (some x) := by
  cases v with
  | null => rw [hnull] at h; cases h
  | _ => exact congrArg (Option.map some) h

theorem eq_str_of_required {s : Option Value} {t : String}
    (h : required Value.asStr? s = some t) : s = some (.str t) := by
  cases s with
  | none => cases h
  | some v =>
      cases v with
      | str t' => exact congrArg (fun t => some (Value.str t)) (Option.some.inj h)
      | _ => cases h

theorem lookup_present (ms : List (String × Option Value)) (n : String)
    (h : (ms.map Prod.fst).Nodup) :
    (ms.filterMap fun m => m.2.map (m.1, ·)).lookup n = (ms.lookup n).join := by
  induction ms with
  | nil => rfl
  | cons m ms ih =>
      obtain ⟨k, v?⟩ := m
      simp only [List.map_cons, List.nodup_cons] at h
      by_cases hn : n = k
      · subst hn
        cases v? with
        | some v => simp
        | none =>
            have hnone : ms.lookup n = none := by
              rw [List.lookup_eq_none_iff]
              intro p hp
              simp only [bne_iff_ne, ne_eq]
              rintro rfl
              exact h.1 (List.mem_map_of_mem hp)
            rw [List.filterMap_cons]
            simp [ih h.2, hnone]
      · have hb : (n == k) = false := by simpa using hn
        cases v? with
        | some v =>
            show List.lookup n ((k, v) :: ms.filterMap fun m => m.2.map (m.1, ·)) = _
            simp only [List.lookup, hb]
            exact ih h.2
        | none => simpa [List.lookup, hb] using ih h.2

theorem nodup_present (ms : List (String × Option Value)) (h : (ms.map Prod.fst).Nodup) :
    ((ms.filterMap fun m => m.2.map (m.1, ·)).map Prod.fst).Nodup := by
  refine h.sublist ?_
  induction ms with
  | nil => exact .slnil
  | cons m ms ih =>
      simp only [List.map_cons, List.nodup_cons] at h
      obtain ⟨k, v?⟩ := m
      cases v? with
      | none => exact (ih h.2).cons _
      | some v => exact (ih h.2).cons_cons _

/-- A written record read by any list of names: each slot holds the member of that name. -/
theorem slots_record (names : List String) (ms : List (String × Option Value))
    (h : (ms.map Prod.fst).Nodup) :
    slots names (record ms) = some (names.map fun n => (ms.lookup n).join) := by
  rw [record, slots, if_pos ((nodup_present ms h).filter _)]
  simp only [lookup_present ms _ h]

theorem lookup_of_mem {α : Type} {ms : List (String × α)} (h : (ms.map Prod.fst).Nodup)
    {m : String × α} (hm : m ∈ ms) : ms.lookup m.1 = some m.2 := by
  induction ms with
  | nil => cases hm
  | cons p ms ih =>
      obtain ⟨hp, hms⟩ := List.nodup_cons.mp h
      rcases List.mem_cons.mp hm with rfl | hm
      · exact List.lookup_cons_self
      · have hne : (m.1 == p.1) = false := by
          rw [beq_eq_false_iff_ne]
          intro he
          exact hp (he ▸ List.mem_map_of_mem hm)
        rw [List.lookup_cons, hne]
        exact ih hms hm

/-- Read by its own names, a written record gives its members in their order. -/
theorem slots_record_self (ms : List (String × Option Value)) (h : (ms.map Prod.fst).Nodup) :
    slots (ms.map Prod.fst) (record ms) = some (ms.map Prod.snd) := by
  rw [slots_record _ _ h, List.map_map]
  refine congrArg some (List.map_congr_left ?_)
  intro m hm
  show (ms.lookup m.1).join = m.2
  rw [lookup_of_mem h hm]
  rfl

/-- Two records with one text have the same members, name by name. -/
theorem lookup_eq_of_print_eq {ms ns : List (String × Option Value)}
    (hms : (ms.map Prod.fst).Nodup) (hns : (ns.map Prod.fst).Nodup)
    (h : (record ms).print = (record ns).print) (k : String) :
    (ms.lookup k).join = (ns.lookup k).join := by
  have hrec := print_injective h
  simp only [record, Value.obj.injEq] at hrec
  rw [← lookup_present ms k hms, hrec, lookup_present ns k hns]

/-! ## Bytes -/

/-- `serde_json::to_vec(v)`. -/
def Value.toVec (v : Value) : List UInt8 := Text.bytes v.print

/-- `serde_json::from_slice(bs)` into a value, numbers as they are written. -/
def fromSlice (bs : List UInt8) : Option Value := (Text.fromUtf8? bs).bind parseText

theorem fromSlice_toVec (v : Value) : fromSlice v.toVec = some v := by
  simp [fromSlice, Value.toVec, parseText_print]

/-! ## Skipped members

A reader of a record skips the members it has no name for, and what it skips it does not
decode: in there a string may hold any bytes from U+0020 on and any `\u` escape.  `mend`
puts a byte of its own for each of these, so that what is left to object to is what the
reader that skips objects to. -/

/-- How far a string literal has come. -/
inductive Literal
  | plain
  | backslash
  /-- `k + 1` hexadecimal digits to come. -/
  | hex (k : Nat)
  deriving DecidableEq, Repr

/-- Where a byte stands. -/
structure Place where
  /-- The containers that are open. -/
  depth : Nat
  /-- The string literal that is open. -/
  literal : Option Literal
  /-- The bytes of the last literal one container deep, back to front. -/
  key : List UInt8
  /-- The member that is being read has no name of the record's. -/
  skipping : Bool

def Place.start : Place := ⟨0, none, [], false⟩

/-- The member of a key is skipped; a key itself is decoded. -/
def skips (names : List String) (key : List UInt8) : Bool :=
  match fromSlice (34 :: key.reverse ++ [34]) with
  | some (.str name) => decide (name ∉ names)
  | _ => false

/-- A byte of a string literal. -/
def Literal.next (l : Literal) (b : UInt8) : Option Literal :=
  match l with
  | .plain => if b = 34 then none else if b = 92 then some .backslash else some .plain
  | .backslash => if b = 117 then some (.hex 3) else some .plain
  | .hex 0 => some .plain
  | .hex (k + 1) => some (.hex k)

def Place.next (names : List String) (p : Place) (b : UInt8) : Place :=
  match p.literal with
  | some l =>
      let literal := l.next b
      { p with literal, key := if p.depth = 1 ∧ literal.isSome then b :: p.key else p.key }
  | none =>
      if b = 34 then { p with literal := some .plain, key := if p.depth = 1 then [] else p.key }
      else if b = 123 ∨ b = 91 then { p with depth := p.depth + 1 }
      else if b = 125 ∨ b = 93 then { p with depth := p.depth - 1 }
      else if p.depth = 1 ∧ b = 58 then { p with skipping := skips names p.key }
      else if p.depth = 1 ∧ b = 44 then { p with skipping := false }
      else p

/-- In a literal that is skipped: `?` for a byte beyond ASCII, `0` for a digit of an escape. -/
def Literal.mend (l : Literal) (b : UInt8) : UInt8 :=
  match l with
  | .plain => if b < 128 then b else 63
  | .backslash => b
  | .hex _ => if (Text.hexValue (Char.ofNat b.toNat)).isSome then 48 else b

def Place.mend (p : Place) (b : UInt8) : UInt8 :=
  match p.literal with
  | some l => if p.skipping then l.mend b else b
  | none => b

/-- The bytes from a place on, with the strings in skipped members mended. -/
def mend (names : List String) (p : Place) : List UInt8 → List UInt8
  | [] => []
  | b :: bs => p.mend b :: mend names (p.next names b) bs

/-- `serde_json::from_slice(bs)` into a record of these names, up to the value: the members
of other names, when they had to be mended, are not what was sent, and nobody reads them. -/
def recordFromSlice (names : List String) (bs : List UInt8) : Option Value :=
  (fromSlice bs).or (fromSlice (mend names .start bs))

theorem length_mend (names : List String) (p : Place) (bs : List UInt8) :
    (mend names p bs).length = bs.length := by
  induction bs generalizing p with
  | nil => rfl
  | cons b bs ih => rw [mend, List.length_cons, List.length_cons, ih]

theorem recordFromSlice_of_some {names : List String} {bs : List UInt8} {v : Value}
    (h : fromSlice bs = some v) : recordFromSlice names bs = some v := by
  rw [recordFromSlice, h, Option.some_or]

@[simp] theorem recordFromSlice_toVec (names : List String) (v : Value) :
    recordFromSlice names v.toVec = some v := recordFromSlice_of_some (fromSlice_toVec v)

-- a lone surrogate and a byte that is no text, in a member that is skipped and in one that is not
example : (recordFromSlice ["a"]
      (Text.bytes "\x7b\"b\":\"\\ud800" ++ [255] ++ Text.bytes "\"\x7d")).isSome = true ∧
    recordFromSlice ["b"] (Text.bytes "\x7b\"b\":\"\\ud800\"\x7d") = none := by decide

theorem length_toList_le (s : String) : s.toList.length ≤ s.utf8ByteSize := by
  have h : ∀ cs : List Char, cs.length ≤ (String.ofList cs).utf8ByteSize := by
    intro cs
    induction cs with
    | nil => simp
    | cons c cs ih =>
        rw [String.ofList_cons, String.utf8ByteSize_append, String.utf8ByteSize_singleton]
        have := c.utf8Size_pos
        simp only [List.length_cons]
        omega
  simpa using h s.toList

/-- No string one level down has more characters than the input has bytes. -/
theorem fromSlice_parts {bs : List UInt8} {v : Value} (h : fromSlice bs = some v) :
    v.partsLe bs.length := by
  unfold fromSlice at h
  rw [Option.bind_eq_some_iff] at h
  obtain ⟨s, hs, hv⟩ := h
  have hlen : s.toList.length ≤ bs.length := by
    have hsize : s.utf8ByteSize = bs.length := by
      unfold Text.fromUtf8? String.fromUTF8? at hs
      split at hs
      · cases hs
        rfl
      · cases hs
    exact hsize ▸ length_toList_le s
  have hp := parseText_parts hv
  cases v with
  | arr vs => exact fun w hw => Value.strLe.mono (hp w hw) hlen
  | obj fs => exact fun f hf => Value.strLe.mono (hp f hf) hlen
  | _ => trivial

/-- Mended or not. -/
theorem recordFromSlice_parts {names : List String} {bs : List UInt8} {v : Value}
    (h : recordFromSlice names bs = some v) : v.partsLe bs.length := by
  rcases Option.or_eq_some_iff.mp h with h | ⟨-, h⟩
  · exact fromSlice_parts h
  · exact length_mend names .start bs ▸ fromSlice_parts h

/-- So have the slots read from it. -/
theorem slots_strLe {names : List String} {v : Value} {n : Nat} {ss : List (Option Value)}
    (hv : v.partsLe n) (h : slots names v = some ss) : ∀ s ∈ ss, ∀ w ∈ s, w.strLe n := by
  cases v with
  | obj fs =>
      simp only [slots] at h
      split at h
      · cases h
        intro s hs w hw
        obtain ⟨name, -, rfl⟩ := List.mem_map.mp hs
        obtain ⟨pre, post, rfl, -⟩ := List.lookup_eq_some_iff.mp hw
        exact hv (name, w) (by simp)
      · cases h
  | arr vs =>
      simp only [slots] at h
      split at h
      · cases h
        intro s hs w hw
        obtain ⟨w', hw', rfl⟩ := List.mem_map.mp hs
        cases hw
        exact hv w hw'
      · cases h
  | _ => cases h

/-! ## Sizes -/

/-- The bytes a character takes in a JSON string. -/
def escapedSize (c : Char) : Nat :=
  if c = '"' ∨ c = '\\' then 2
  else if 32 ≤ c.toNat then c.utf8Size
  else if c.toNat ∈ [8, 9, 10, 12, 13] then 2
  else 6

/-- The bytes a string takes between its quotes. -/
def escapedLen (s : String) : Nat := (s.toList.map escapedSize).sum

/-- The bytes of a token. -/
def Tok.size (t : Tok) : Nat := (t.text.map Char.utf8Size).sum

theorem utf8ByteSize_ofList (cs : List Char) :
    (String.ofList cs).utf8ByteSize = (cs.map Char.utf8Size).sum := by
  induction cs with
  | nil => simp
  | cons c cs ih =>
      rw [String.ofList_cons, String.utf8ByteSize_append, String.utf8ByteSize_singleton, ih,
        List.map_cons, List.sum_cons]

theorem size_escapeChar (c : Char) : ((escapeChar c).map Char.utf8Size).sum = escapedSize c := by
  have hx : ∀ k < 16, (Text.hexDigit k).utf8Size = 1 := by decide
  unfold escapeChar escapedSize
  split_ifs with hq hb h32 h8 h9 h10 h12 h13
  all_goals simp_all
  · decide
  · decide
  all_goals first
    | decide
    | (rw [hx _ (by omega), hx _ (by omega)]; decide)

/-- A string token: its escaped characters and two quotes. -/
theorem size_str (s : String) : (Tok.str s).size = escapedLen s + 2 := by
  have h : ∀ cs : List Char, ((cs.flatMap escapeChar).map Char.utf8Size).sum
      = (cs.map escapedSize).sum := by
    intro cs
    induction cs with
    | nil => rfl
    | cons c cs ih => simp [size_escapeChar, ih]
  have hq : Char.utf8Size '"' = 1 := by decide
  simp only [Tok.size, Tok.text, List.map_cons, List.map_append, List.sum_cons, List.sum_append,
    h, hq, List.map_nil, List.sum_nil, escapedLen]
  omega

/-- The bytes of a value's text are those of its tokens. -/
theorem size_print (v : Value) : v.print.utf8ByteSize = (v.toks.map Tok.size).sum := by
  rw [Value.print, utf8ByteSize_ofList]
  induction v.toks with
  | nil => rfl
  | cons t ts ih => simp [Tok.size, ih]

/-- The bytes of a value's text. -/
def Value.size (v : Value) : Nat := (v.toks.map Tok.size).sum

theorem length_toVec (v : Value) : v.toVec.length = v.size := by
  rw [Value.toVec, Text.length_bytes, size_print]
  rfl

@[simp] theorem Value.size_null : Value.null.size = 4 := by decide

@[simp] theorem Value.size_true : (Value.bool true).size = 4 := by decide

@[simp] theorem Value.size_false : (Value.bool false).size = 5 := by decide

@[simp] theorem Value.size_num (n : NumLit) : (Value.num n).size = n.text.utf8ByteSize := by
  have h := utf8ByteSize_ofList n.text.toList
  rw [String.ofList_toList] at h
  simpa [Value.size, Value.toks, Tok.size, Tok.text] using h.symm

@[simp] theorem Value.size_str (s : String) : (Value.str s).size = escapedLen s + 2 := by
  simp [Value.size, Value.toks, Json.size_str]

theorem size_fieldToks (fs : List (String × Value)) :
    ((fieldToks fs).map Tok.size).sum
      = (fs.map fun f => escapedLen f.1).sum + 4 * fs.length + (fs.map fun f => f.2.size).sum := by
  induction fs with
  | nil => rfl
  | cons f fs ih =>
      obtain ⟨key, v⟩ := f
      have hcomma : Tok.comma.size = 1 := by decide
      have hcolon : Tok.colon.size = 1 := by decide
      simp only [fieldToks, List.map_cons, List.map_append, List.sum_cons, List.sum_append, ih,
        hcomma, hcolon, Json.size_str, List.length_cons, Value.size]
      omega

/-- An object: its keys, four bytes about each member, its values, and one brace. -/
theorem Value.size_obj {fs : List (String × Value)} (h : fs ≠ []) :
    (Value.obj fs).size
      = (fs.map fun f => escapedLen f.1).sum + 4 * fs.length + (fs.map fun f => f.2.size).sum
        + 1 := by
  rw [← size_fieldToks]
  cases fs with
  | nil => exact absurd rfl h
  | cons f fs =>
      obtain ⟨key, v⟩ := f
      have hcomma : Tok.comma.size = 1 := by decide
      have hl : Tok.lbrace.size = 1 := by decide
      have hr : Tok.rbrace.size = 1 := by decide
      simp only [Value.size, Value.toks, fieldToks, List.tail_cons, List.map_cons,
        List.map_append, List.sum_cons, List.sum_append, hcomma, hl, hr, List.map_nil,
        List.sum_nil]
      omega

theorem one_le_escapedSize (c : Char) : 1 ≤ escapedSize c := by
  have := c.utf8Size_pos
  unfold escapedSize
  split_ifs <;> omega

theorem length_le_escapedLen (s : String) : s.toList.length ≤ escapedLen s := by
  unfold escapedLen
  induction s.toList with
  | nil => exact Nat.le_refl 0
  | cons c cs ih =>
      have := one_le_escapedSize c
      simp only [List.map_cons, List.sum_cons, List.length_cons]
      omega

/-- The text of a record is no shorter than a string in it. -/
theorem length_le_print {ms : List (String × Option Value)} {k s : String}
    (h : (k, some (Value.str s)) ∈ ms) : s.toList.length ≤ (record ms).print.utf8ByteSize := by
  have hmem : (k, Value.str s) ∈ ms.filterMap fun m => m.2.map (m.1, ·) :=
    List.mem_filterMap.mpr ⟨(k, some (.str s)), h, rfl⟩
  have hsize : (Value.str s).size ≤
      ((ms.filterMap fun m => m.2.map (m.1, ·)).map fun f => f.2.size).sum :=
    List.le_sum_of_mem (List.mem_map_of_mem hmem)
  have hprint : (record ms).print.utf8ByteSize = (record ms).size := size_print _
  rw [hprint, record, Value.size_obj (List.ne_nil_of_mem hmem)]
  rw [Value.size_str] at hsize
  have hlen := length_le_escapedLen s
  omega

theorem escapedSize_le (c : Char) : escapedSize c ≤ 6 := by
  have := c.utf8Size_le_four
  unfold escapedSize
  split_ifs <;> omega

theorem escapedLen_le (s : String) : escapedLen s ≤ 6 * s.toList.length := by
  unfold escapedLen
  induction s.toList with
  | nil => simp
  | cons c cs ih =>
      have := escapedSize_le c
      simp only [List.map_cons, List.sum_cons, List.length_cons]
      omega

end Json

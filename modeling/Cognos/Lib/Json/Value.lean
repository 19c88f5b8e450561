/-
# `Cognos.Lib.Json.Value` — JSON values, their text and their reader

A value, the text `serde_json::to_string` writes for it, and the reader of
`serde_json::from_str` as a push-down machine over tokens: `Frame`s are the
containers that are open.  An object keeps its members in the order and the number
they were written in, so that a reader built on it can still tell a repeated key;
the limits on depth and on the size of numbers apply only where a `Value` itself is
asked for (`Value.admitted`), for members that are skipped have none.

    parseText_print   a value reads back from its text
    print_injective   so two values with one text are one value
    parseText_parts   no string one level down is longer than the text
-/
import Cognos.Lib.Json.Token

namespace Json

inductive Value
  | null
  | bool (b : Bool)
  | num (n : NumLit)
  | str (s : String)
  | arr (vs : List Value)
  | obj (fs : List (String × Value))

/-! ## Text -/

mutual

/-- The tokens of a value. -/
def Value.toks : Value → List Tok
  | .null => [.null]
  | .bool true => [.tru]
  | .bool false => [.fls]
  | .num n => [.num n]
  | .str s => [.str s]
  | .arr vs => .lbrack :: ((elemToks vs).tail ++ [.rbrack])
  | .obj fs => .lbrace :: ((fieldToks fs).tail ++ [.rbrace])

/-- Elements, each behind a comma. -/
def elemToks : List Value → List Tok
  | [] => []
  | v :: vs => .comma :: (v.toks ++ elemToks vs)

/-- Members, each behind a comma. -/
def fieldToks : List (String × Value) → List Tok
  | [] => []
  | (k, v) :: fs => .comma :: .str k :: .colon :: (v.toks ++ fieldToks fs)

end

/-- `serde_json::to_string(v)`. -/
def Value.print (v : Value) : String := String.ofList (v.toks.flatMap Tok.text)

mutual

/-- How deep containers are nested. -/
def Value.depth : Value → Nat
  | .arr vs => elemDepth vs + 1
  | .obj fs => fieldDepth fs + 1
  | _ => 0

def elemDepth : List Value → Nat
  | [] => 0
  | v :: vs => max v.depth (elemDepth vs)

def fieldDepth : List (String × Value) → Nat
  | [] => 0
  | (_, v) :: fs => max v.depth (fieldDepth fs)

end

mutual

/-- Every number in the value passes `p`. -/
def Value.numsAll (p : NumLit → Bool) : Value → Bool
  | .num n => p n
  | .arr vs => elemNumsAll p vs
  | .obj fs => fieldNumsAll p fs
  | _ => true

def elemNumsAll (p : NumLit → Bool) : List Value → Bool
  | [] => true
  | v :: vs => v.numsAll p && elemNumsAll p vs

def fieldNumsAll (p : NumLit → Bool) : List (String × Value) → Bool
  | [] => true
  | (_, v) :: fs => v.numsAll p && fieldNumsAll p fs

end

/-- What `serde_json` takes as a `Value` where `room` more containers may be opened: nothing
nested deeper, and no number beyond the range of its type. -/
def Value.admitted (inRange : NumLit → Bool) (room : Nat) (v : Value) : Option Value :=
  if v.depth ≤ room ∧ v.numsAll inRange = true then some v else none

/-- `v.get(key)`: the value of a member (of the last of that name, as a map keeps it). -/
def Value.get? : Value → String → Option Value
  | .obj fs, key => fs.reverse.lookup key
  | _, _ => none

/-- `v.as_str()`. -/
def Value.asStr? : Value → Option String
  | .str s => some s
  | _ => none

/-- `v.as_bool()`. -/
def Value.asBool? : Value → Option Bool
  | .bool b => some b
  | _ => none

/-! ## The reader -/

/-- An open container whose next element is being read; what it holds, it holds back to front. -/
inductive Frame
  | inArr (got : List Value)
  | inObj (got : List (String × Value)) (key : String)

/-- What the reader waits for. -/
inductive PState
  | val (k : List Frame)
  | arrFirst (k : List Frame)
  | arrNext (got : List Value) (k : List Frame)
  | objFirst (k : List Frame)
  | key (got : List (String × Value)) (k : List Frame)
  | colon (got : List (String × Value)) (key : String) (k : List Frame)
  | objNext (got : List (String × Value)) (k : List Frame)
  | done (v : Value)

/-- A value is complete. -/
def give (v : Value) : List Frame → PState
  | [] => .done v
  | .inArr got :: k => .arrNext (v :: got) k
  | .inObj got key :: k => .objNext ((key, v) :: got) k

/-- The first token of a value. -/
def openValue (k : List Frame) : Tok → Option PState
  | .null => some (give .null k)
  | .tru => some (give (.bool true) k)
  | .fls => some (give (.bool false) k)
  | .num n => some (give (.num n) k)
  | .str s => some (give (.str s) k)
  | .lbrack => some (.arrFirst k)
  | .lbrace => some (.objFirst k)
  | _ => none

/-- One token. -/
def pstep : PState → Tok → Option PState
  | .val k, t => openValue k t
  | .arrFirst k, .rbrack => some (give (.arr []) k)
  | .arrFirst k, t => openValue (.inArr [] :: k) t
  | .arrNext got k, .comma => some (.val (.inArr got :: k))
  | .arrNext got k, .rbrack => some (give (.arr got.reverse) k)
  | .objFirst k, .rbrace => some (give (.obj []) k)
  | .objFirst k, .str key => some (.colon [] key k)
  | .key got k, .str key => some (.colon got key k)
  | .colon got key k, .colon => some (.val (.inObj got key :: k))
  | .objNext got k, .comma => some (.key got k)
  | .objNext got k, .rbrace => some (give (.obj got.reverse) k)
  | _, _ => none

def run : PState → List Tok → Option PState
  | s, [] => some s
  | s, t :: ts =>
      match pstep s t with
      | none => none
      | some s' => run s' ts

/-- The value a whole token list spells. -/
def parse (ts : List Tok) : Option Value :=
  match run (.val []) ts with
  | some (.done v) => some v
  | _ => none

/-- The value of a text: `serde_json::from_str`, numbers left as they are written. -/
def parseText (s : String) : Option Value :=
  match lex s.toList with
  | none => none
  | some ts => parse ts

/-! ## A value's tokens read back -/

theorem run_cons_of_pstep {s r : PState} {t : Tok} (h : pstep s t = some r) (ts : List Tok) :
    run s (t :: ts) = run r ts := by
  simp [run, h]

/-- No value starts with the bracket that would close an array. -/
theorem Value.toks_head (v : Value) : ∃ t ts, v.toks = t :: ts ∧ t ≠ .rbrack := by
  cases v with
  | bool b => cases b <;> exact ⟨_, _, rfl, by decide⟩
  | _ => exact ⟨_, _, rfl, by simp⟩

theorem run_arrFirst (v : Value) (k : List Frame) (rest : List Tok) :
    run (.arrFirst k) (v.toks ++ rest) = run (.val (.inArr [] :: k)) (v.toks ++ rest) := by
  obtain ⟨t, ts, hv, ht⟩ := v.toks_head
  have hstep : pstep (.arrFirst k) t = pstep (.val (.inArr [] :: k)) t := by
    cases t with
    | rbrack => exact absurd rfl ht
    | _ => rfl
  simp only [hv, List.cons_append, run, hstep]

mutual

/-- Read where a value is due, a value's tokens give the value. -/
theorem run_toks (v : Value) (k : List Frame) (rest : List Tok) :
    run (.val k) (v.toks ++ rest) = run (give v k) rest := by
  cases v with
  | null => exact run_cons_of_pstep rfl rest
  | bool b => cases b <;> exact run_cons_of_pstep rfl rest
  | num n => exact run_cons_of_pstep rfl rest
  | str s => exact run_cons_of_pstep rfl rest
  | arr vs =>
      simp only [Value.toks, List.cons_append, List.append_assoc]
      rw [run_cons_of_pstep (r := .arrFirst k) rfl]
      cases vs with
      | nil => exact run_cons_of_pstep rfl rest
      | cons v vs =>
          simp only [elemToks, List.tail_cons, List.append_assoc]
          rw [run_arrFirst, run_toks v (.inArr [] :: k) _]
          show run (.arrNext [v] k) _ = _
          rw [run_elemToks vs [v] k _,
            run_cons_of_pstep (r := give (.arr (v :: vs)) k) (by simp [pstep])]
          rfl
  | obj fs =>
      simp only [Value.toks, List.cons_append, List.append_assoc]
      rw [run_cons_of_pstep (r := .objFirst k) rfl]
      cases fs with
      | nil => exact run_cons_of_pstep rfl rest
      | cons f fs =>
          obtain ⟨key, v⟩ := f
          simp only [fieldToks, List.tail_cons, List.cons_append, List.append_assoc]
          rw [run_cons_of_pstep (r := .colon [] key k) rfl,
            run_cons_of_pstep (r := .val (.inObj [] key :: k)) rfl,
            run_toks v (.inObj [] key :: k) _]
          show run (.objNext [(key, v)] k) _ = _
          rw [run_fieldToks fs [(key, v)] k _,
            run_cons_of_pstep (r := give (.obj ((key, v) :: fs)) k) (by simp [pstep])]
          rfl

theorem run_elemToks (vs got : List Value) (k : List Frame) (rest : List Tok) :
    run (.arrNext got k) (elemToks vs ++ rest) = run (.arrNext (vs.reverse ++ got) k) rest := by
  cases vs with
  | nil => rfl
  | cons v vs =>
      simp only [elemToks, List.cons_append, List.append_assoc]
      rw [run_cons_of_pstep (r := .val (.inArr got :: k)) rfl, run_toks v (.inArr got :: k) _]
      show run (.arrNext (v :: got) k) _ = _
      rw [run_elemToks vs (v :: got) k _]
      simp

theorem run_fieldToks (fs got : List (String × Value)) (k : List Frame) (rest : List Tok) :
    run (.objNext got k) (fieldToks fs ++ rest) = run (.objNext (fs.reverse ++ got) k) rest := by
  cases fs with
  | nil => rfl
  | cons f fs =>
      obtain ⟨key, v⟩ := f
      simp only [fieldToks, List.cons_append, List.append_assoc]
      rw [run_cons_of_pstep (r := .key got k) rfl,
        run_cons_of_pstep (r := .colon got key k) rfl,
        run_cons_of_pstep (r := .val (.inObj got key :: k)) rfl,
        run_toks v (.inObj got key :: k) _]
      show run (.objNext ((key, v) :: got) k) _ = _
      rw [run_fieldToks fs ((key, v) :: got) k _]
      simp

end

/-- A value reads back from its tokens. -/
theorem parse_toks (v : Value) : parse v.toks = some v := by
  have hrun := run_toks v [] []
  rw [List.append_nil] at hrun
  simp [parse, hrun, run, give]

/-! ## A value's text reads back -/

/-- In front of what stops a word or a number, the text of `ts` reads as `ts`. -/
def Reads (ts : List Tok) : Prop :=
  ∀ rest, Stops rest →
    lexGo .idle (ts.flatMap Tok.text ++ rest) = (lexGo .idle rest).map (ts ++ ·)

theorem Reads.nil : Reads [] := by
  intro rest _
  simp

theorem Reads.single (t : Tok) : Reads [t] := by
  intro rest h
  simpa using lex_tok t (fun _ => h)

theorem Reads.cons {t : Tok} {ts : List Tok} (ht : t.wordy = false) (h : Reads ts) :
    Reads (t :: ts) := by
  intro rest hr
  rw [List.flatMap_cons, List.append_assoc, lex_tok t (by simp [ht]), h rest hr]
  simp [Option.map_map, Function.comp_def]

/-- Two readable lists in a row, the second one empty or starting with a stopping token. -/
theorem Reads.append {ts us : List Tok} (ht : Reads ts) (hu : Reads us)
    (hs : ∀ u ∈ us.head?, u ∈ [Tok.rbrace, .rbrack, .comma]) : Reads (ts ++ us) := by
  intro rest hr
  have hstop : Stops (us.flatMap Tok.text ++ rest) := by
    cases us with
    | nil => exact hr
    | cons u us =>
        rw [List.flatMap_cons, List.append_assoc]
        exact Stops.tok (hs u rfl) _
  rw [List.flatMap_append, List.append_assoc, ht _ hstop, hu rest hr]
  simp [Option.map_map, Function.comp_def]

theorem elemToks_head (vs : List Value) :
    ∀ t ∈ (elemToks vs).head?, t ∈ [Tok.rbrace, .rbrack, .comma] := by
  cases vs with
  | nil => rintro _ ⟨⟩
  | cons v vs => rintro _ ⟨⟩; simp

theorem fieldToks_head (fs : List (String × Value)) :
    ∀ t ∈ (fieldToks fs).head?, t ∈ [Tok.rbrace, .rbrack, .comma] := by
  cases fs with
  | nil => rintro _ ⟨⟩
  | cons f fs => rintro _ ⟨⟩; simp

mutual

theorem reads_toks (v : Value) : Reads v.toks := by
  cases v with
  | bool b => cases b <;> exact .single _
  | null | num _ | str _ => exact .single _
  | arr vs =>
      refine .cons rfl (Reads.append ?_ (.single .rbrack) (by rintro _ ⟨⟩; simp))
      cases vs with
      | nil => exact .nil
      | cons v vs => exact (reads_toks v).append (reads_elemToks vs) (elemToks_head vs)
  | obj fs =>
      refine .cons rfl (Reads.append ?_ (.single .rbrace) (by rintro _ ⟨⟩; simp))
      cases fs with
      | nil => exact .nil
      | cons f fs =>
          obtain ⟨key, v⟩ := f
          exact .cons rfl (.cons rfl ((reads_toks v).append (reads_fieldToks fs)
            (fieldToks_head fs)))

theorem reads_elemToks (vs : List Value) : Reads (elemToks vs) := by
  cases vs with
  | nil => exact .nil
  | cons v vs =>
      exact .cons rfl ((reads_toks v).append (reads_elemToks vs) (elemToks_head vs))

theorem reads_fieldToks (fs : List (String × Value)) : Reads (fieldToks fs) := by
  cases fs with
  | nil => exact .nil
  | cons f fs =>
      obtain ⟨key, v⟩ := f
      exact .cons rfl (.cons rfl (.cons rfl ((reads_toks v).append (reads_fieldToks fs)
        (fieldToks_head fs))))

end

/-- A value reads back from its text. -/
theorem parseText_print (v : Value) : parseText v.print = some v := by
  have hlex : lex (v.toks.flatMap Tok.text) = some v.toks := by
    have := reads_toks v [] Stops.nil
    rw [List.append_nil] at this
    simpa [lex, lexGo, finish] using this
  simp [parseText, Value.print, hlex, parse_toks]

theorem print_injective {v w : Value} (h : v.print = w.print) : v = w := by
  have := parseText_print v
  rw [h, parseText_print w] at this
  exact (Option.some.inj this).symm

/-- A value's text is one line. -/
theorem isLine_print (v : Value) : Text.IsLine v.print := by
  have hge : ∀ c ∈ v.print.toList, 32 ≤ c.toNat := by
    intro c hc
    simp only [Value.print, String.toList_ofList, List.mem_flatMap] at hc
    obtain ⟨t, -, hc⟩ := hc
    exact le_of_mem_text t c hc
  refine ⟨fun h => absurd (hge _ h) (by decide), fun h => ?_⟩
  exact absurd (hge _ (List.mem_of_getLast? h)) (by decide)

/-! ## Strings one level down -/

/-- A string value has at most `n` characters. -/
def Value.strLe (n : Nat) : Value → Prop
  | .str s => s.toList.length ≤ n
  | _ => True

/-- So have the string elements or members of a container. -/
def Value.partsLe (n : Nat) : Value → Prop
  | .arr vs => ∀ v ∈ vs, v.strLe n
  | .obj fs => ∀ f ∈ fs, f.2.strLe n
  | _ => True

theorem Value.strLe.mono {v : Value} {n n' : Nat} (h : v.strLe n) (hn : n ≤ n') :
    v.strLe n' := by
  cases v with
  | str s => exact Nat.le_trans h hn
  | _ => trivial

def Frame.partsLe (n : Nat) : Frame → Prop
  | .inArr got => ∀ v ∈ got, v.strLe n
  | .inObj got _ => ∀ f ∈ got, f.2.strLe n

def PState.partsLe (n : Nat) : PState → Prop
  | .val k | .arrFirst k | .objFirst k => ∀ f ∈ k, f.partsLe n
  | .arrNext got k => (∀ v ∈ got, v.strLe n) ∧ ∀ f ∈ k, f.partsLe n
  | .key got k | .colon got _ k | .objNext got k =>
      (∀ f ∈ got, f.2.strLe n) ∧ ∀ f ∈ k, f.partsLe n
  | .done v => v.partsLe n

theorem give_partsLe {n : Nat} {v : Value} {k : List Frame} (hs : v.strLe n) (hp : v.partsLe n)
    (hk : ∀ f ∈ k, f.partsLe n) : (give v k).partsLe n := by
  cases k with
  | nil => exact hp
  | cons f k =>
      simp only [List.forall_mem_cons] at hk
      cases f with
      | inArr got => exact ⟨List.forall_mem_cons.mpr ⟨hs, hk.1⟩, hk.2⟩
      | inObj got key => exact ⟨List.forall_mem_cons.mpr ⟨hs, hk.1⟩, hk.2⟩

theorem openValue_partsLe {n : Nat} {k : List Frame} {t : Tok} {s : PState} (ht : t.strLe n)
    (hk : ∀ f ∈ k, f.partsLe n) (h : openValue k t = some s) : s.partsLe n := by
  cases t with
  | lbrack | lbrace => cases h; exact hk
  | str str => cases h; exact give_partsLe ht trivial hk
  | null | tru | fls | num _ => cases h; exact give_partsLe trivial trivial hk
  | _ => cases h

theorem pstep_partsLe {n : Nat} {s s' : PState} {t : Tok} (ht : t.strLe n)
    (hs : s.partsLe n) (h : pstep s t = some s') : s'.partsLe n := by
  unfold pstep at h
  split at h
  · exact openValue_partsLe ht hs h
  · cases h; exact give_partsLe trivial (by simp [Value.partsLe]) hs
  · refine openValue_partsLe ht ?_ h
    exact List.forall_mem_cons.mpr ⟨by simp [Frame.partsLe], hs⟩
  · cases h; exact List.forall_mem_cons.mpr hs
  · cases h; exact give_partsLe trivial (by simpa [Value.partsLe] using hs.1) hs.2
  · cases h; exact give_partsLe trivial (by simp [Value.partsLe]) hs
  · cases h; exact ⟨by simp, hs⟩
  · cases h; exact hs
  · cases h; exact List.forall_mem_cons.mpr hs
  · cases h; exact hs
  · cases h; exact give_partsLe trivial (by simpa [Value.partsLe] using hs.1) hs.2
  · cases h

theorem run_partsLe {n : Nat} {s s' : PState} {ts : List Tok} (hts : ∀ t ∈ ts, t.strLe n)
    (hs : s.partsLe n) (h : run s ts = some s') : s'.partsLe n := by
  induction ts generalizing s with
  | nil => cases h; exact hs
  | cons t ts ih =>
      simp only [run] at h
      split at h
      · cases h
      · next s'' hstep =>
          simp only [List.forall_mem_cons] at hts
          exact ih hts.2 (pstep_partsLe hts.1 hs hstep) h

/-- No string one level down is longer than the text it was read from. -/
theorem parseText_parts {s : String} {v : Value} (h : parseText s = some v) :
    v.partsLe s.toList.length := by
  unfold parseText parse at h
  split at h
  · cases h
  · next ts hlex =>
      split at h
      · next w hrun =>
          cases h
          exact run_partsLe (lex_strLe hlex) (by simp [PState.partsLe]) hrun
      · cases h

end Json

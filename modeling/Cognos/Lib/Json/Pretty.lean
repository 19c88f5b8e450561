/-
# `Cognos.Lib.Json.Pretty` — values on several lines

The text `serde_json::to_string_pretty` writes: each element of a container on a line of
its own, two blanks deeper than the container; empty containers on one line.

    parseText_pretty   a value reads back from it, as from its text on one line
-/
import Cognos.Lib.Json.Value

namespace Json

/-! ## Text -/

/-- A new line, `depth` containers deep. -/
def newline (depth : Nat) : List Char := '\n' :: List.replicate (2 * depth) ' '

/-- The line a container ends on, when anything is in it. -/
def closing (depth : Nat) (empty : Bool) : List Char := if empty then [] else newline depth

mutual

/-- A value inside of `depth` containers. -/
def Value.prettyAt (depth : Nat) : Value → List Char
  | .null => Tok.null.text
  | .bool true => Tok.tru.text
  | .bool false => Tok.fls.text
  | .num n => (Tok.num n).text
  | .str s => (Tok.str s).text
  | .arr vs => '[' :: ((prettyElems (depth + 1) vs).tail ++ (closing depth vs.isEmpty ++ [']']))
  | .obj fs =>
      '{' :: ((prettyFields (depth + 1) fs).tail ++ (closing depth fs.isEmpty ++ ['}']))

/-- Elements, each on its line behind a comma. -/
def prettyElems (depth : Nat) : List Value → List Char
  | [] => []
  | v :: vs => ',' :: (newline depth ++ (v.prettyAt depth ++ prettyElems depth vs))

/-- Members, each on its line behind a comma. -/
def prettyFields (depth : Nat) : List (String × Value) → List Char
  | [] => []
  | (k, v) :: fs => ',' :: (newline depth ++ ((Tok.str k).text ++
      (':' :: ' ' :: (v.prettyAt depth ++ prettyFields depth fs))))

end

/-- `serde_json::to_string_pretty(v)`. -/
def Value.pretty (v : Value) : String := String.ofList (v.prettyAt 0)

/-! ## Reading it -/

/-- In front of what stops a word or a number, the characters read as `ts`. -/
def Spells (cs : List Char) (ts : List Tok) : Prop :=
  ∀ rest, Stops rest → lexGo .idle (cs ++ rest) = (lexGo .idle rest).map (ts ++ ·)

theorem Spells.nil : Spells [] [] := by
  intro rest _
  simp

theorem Spells.tok (t : Tok) : Spells t.text [t] := by
  intro rest h
  exact lex_tok t fun _ => h

/-- A token that nothing can continue, and what follows it. -/
theorem Spells.cons {t : Tok} {cs : List Char} {ts : List Tok} (ht : t.wordy = false)
    (h : Spells cs ts) : Spells (t.text ++ cs) (t :: ts) := by
  intro rest hr
  rw [List.append_assoc, lex_tok t (by simp [ht]), h rest hr, Option.map_map]
  rfl

theorem Spells.space {c : Char} {cs : List Char} {ts : List Tok} (hc : c = ' ' ∨ c = '\n')
    (h : Spells cs ts) : Spells (c :: cs) ts := by
  intro rest hr
  have hstep : step .idle c = some (.idle, []) := by
    rcases hc with rfl | rfl
    · rfl
    · rfl
  rw [List.cons_append, lexGo_cons_of_step hstep, h rest hr]

theorem Spells.newline {cs : List Char} {ts : List Tok} (depth : Nat) (h : Spells cs ts) :
    Spells (newline depth ++ cs) ts := by
  refine .space (Or.inr rfl) ?_
  induction 2 * depth with
  | zero => exact h
  | succ n ih => exact .space (Or.inl rfl) ih

/-- What stops a word or a number, or nothing at all. -/
def Ends (cs : List Char) : Prop := cs = [] ∨ ∀ rest, Stops (cs ++ rest)

theorem Spells.append {cs ds : List Char} {ts us : List Tok} (hc : Spells cs ts)
    (hd : Spells ds us) (hends : Ends ds) : Spells (cs ++ ds) (ts ++ us) := by
  intro rest hr
  have hstop : Stops (ds ++ rest) := by
    rcases hends with rfl | h
    · exact hr
    · exact h rest
  rw [List.append_assoc, hc _ hstop, hd rest hr, Option.map_map]
  simp [Function.comp_def]

theorem stops_of_head {c : Char} {cs : List Char} (hnum : isNumChar c = false)
    (hlow : isLower c = false) : Stops (c :: cs) := by
  intro d hd
  obtain rfl : c = d := Option.some.inj hd
  exact ⟨hnum, hlow⟩

theorem ends_elems (depth : Nat) (vs : List Value) : Ends (prettyElems depth vs) := by
  cases vs with
  | nil => exact Or.inl rfl
  | cons v vs => exact Or.inr fun rest => stops_of_head (by decide) (by decide)

theorem ends_fields (depth : Nat) (fs : List (String × Value)) : Ends (prettyFields depth fs) := by
  cases fs with
  | nil => exact Or.inl rfl
  | cons f fs => exact Or.inr fun rest => stops_of_head (by decide) (by decide)

/-- The end of a container that is not empty. -/
theorem spells_close (depth : Nat) {t : Tok} (ht : t.wordy = false) :
    Spells (newline depth ++ t.text) [t] ∧ Ends (newline depth ++ t.text) := by
  constructor
  · rw [← List.append_nil t.text]
    exact .newline depth (.cons ht .nil)
  · exact Or.inr fun rest => stops_of_head (by decide) (by decide)

mutual

/-- A value is read as it is from its text on one line. -/
theorem spells_value (depth : Nat) (v : Value) : Spells (v.prettyAt depth) v.toks := by
  cases v with
  | null => exact .tok .null
  | bool b =>
      cases b with
      | false => exact .tok .fls
      | true => exact .tok .tru
  | num n => exact .tok (.num n)
  | str s => exact .tok (.str s)
  | arr vs =>
      refine Spells.cons (t := .lbrack) rfl ?_
      cases vs with
      | nil => exact .tok .rbrack
      | cons v vs =>
          obtain ⟨hclose, hends⟩ := spells_close depth (t := .rbrack) rfl
          have helems := (spells_value (depth + 1) v).append (spells_elems (depth + 1) vs)
            (ends_elems _ _)
          exact (Spells.newline _ helems).append hclose hends
  | obj fs =>
      refine Spells.cons (t := .lbrace) rfl ?_
      cases fs with
      | nil => exact .tok .rbrace
      | cons f fs =>
          obtain ⟨key, v⟩ := f
          obtain ⟨hclose, hends⟩ := spells_close depth (t := .rbrace) rfl
          have hfields := (spells_value (depth + 1) v).append (spells_fields (depth + 1) fs)
            (ends_fields _ _)
          have hcolon := Spells.cons (t := .colon) rfl (.space (Or.inl rfl) hfields)
          have hkey := Spells.cons (t := .str key) rfl hcolon
          exact (Spells.newline _ hkey).append hclose hends

theorem spells_elems (depth : Nat) (vs : List Value) :
    Spells (prettyElems depth vs) (elemToks vs) := by
  cases vs with
  | nil => exact .nil
  | cons v vs =>
      have hrest := (spells_value depth v).append (spells_elems depth vs) (ends_elems _ _)
      exact Spells.cons (t := .comma) rfl (.newline depth hrest)

theorem spells_fields (depth : Nat) (fs : List (String × Value)) :
    Spells (prettyFields depth fs) (fieldToks fs) := by
  cases fs with
  | nil => exact .nil
  | cons f fs =>
      obtain ⟨key, v⟩ := f
      have hrest := (spells_value depth v).append (spells_fields depth fs) (ends_fields _ _)
      have hcolon := Spells.cons (t := .colon) rfl (.space (Or.inl rfl) hrest)
      have hkey := Spells.cons (t := .str key) rfl hcolon
      exact Spells.cons (t := .comma) rfl (.newline depth hkey)

end

/-- A value reads back from its text on several lines. -/
theorem parseText_pretty (v : Value) : parseText v.pretty = some v := by
  have hlex : lex (v.prettyAt 0) = some v.toks := by
    have hspells := spells_value 0 v [] Stops.nil
    rw [List.append_nil] at hspells
    simpa [lex, lexGo, finish] using hspells
  unfold parseText Value.pretty
  rw [String.toList_ofList, hlex]
  exact parse_toks v

end Json

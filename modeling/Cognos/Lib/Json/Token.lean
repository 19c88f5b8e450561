/-
# `Cognos.Lib.Json.Token` — the tokens of a JSON text

A JSON text is read in two passes, as `serde_json` reads it in one: the machine of
this file turns characters into tokens, the machine of `Json.Value` turns tokens
into a value.  Both take one input symbol at a time, so both are plain recursions
over their input and a text of any length is covered without fuel.

    number      -?(0|[1-9][0-9]*)(\.[0-9]+)?([eE][+-]?[0-9]+)?
    string      every character from U+0020 on but `"` and `\`, and the escapes
    word        true, false, null

A number stays the text it was written as (`NumLit`): what it is worth is a matter
of the number type it is read into, and this file fixes none.  The result to use
downstream is `lex_tok`: in front of anything that cannot continue it, a token's
text reads back as the token.
-/
import Cognos.Lib.Text

namespace Json

open Text (hexDigit hexValue hexValue_hexDigit)

/-! ## Number literals -/

/-- How far a number literal has come. -/
inductive NumState
  | start | minus | zero | int | dot | frac | exp | sign | digits | dead
  deriving DecidableEq, Repr

/-- One character of a number literal. -/
def numStep (s : NumState) (c : Char) : NumState :=
  match s with
  | .start => if c = '-' then .minus else if c = '0' then .zero
      else if c.isDigit then .int else .dead
  | .minus => if c = '0' then .zero else if c.isDigit then .int else .dead
  | .zero => if c = '.' then .dot else if c = 'e' ∨ c = 'E' then .exp else .dead
  | .int => if c.isDigit then .int else if c = '.' then .dot
      else if c = 'e' ∨ c = 'E' then .exp else .dead
  | .dot => if c.isDigit then .frac else .dead
  | .frac => if c.isDigit then .frac else if c = 'e' ∨ c = 'E' then .exp else .dead
  | .exp => if c.isDigit then .digits else if c = '+' ∨ c = '-' then .sign else .dead
  | .sign => if c.isDigit then .digits else .dead
  | .digits => if c.isDigit then .digits else .dead
  | .dead => .dead

/-- The states a number literal may end in. -/
def NumState.accepts : NumState → Bool
  | .zero | .int | .frac | .digits => true
  | _ => false

/-- The characters are one number literal. -/
def isNumber (cs : List Char) : Bool := (cs.foldl numStep .start).accepts

/-- The characters a number literal is made of. -/
def isNumChar (c : Char) : Bool :=
  c.isDigit || c == '-' || c == '+' || c == '.' || c == 'e' || c == 'E'

/-- A number as it is written, with the proof that it is one. -/
structure NumLit where
  text : String
  wf : isNumber text.toList = true
  deriving DecidableEq

/-- The characters as a number literal, when they are one. -/
def NumLit.ofChars? (cs : List Char) : Option NumLit :=
  if h : isNumber cs = true then some ⟨String.ofList cs, by rwa [String.toList_ofList]⟩ else none

@[simp] theorem NumLit.ofChars?_text (n : NumLit) : NumLit.ofChars? n.text.toList = some n := by
  rw [NumLit.ofChars?, dif_pos n.wf]
  simp

theorem foldl_dead (cs : List Char) : cs.foldl numStep .dead = .dead := by
  induction cs with
  | nil => rfl
  | cons c cs ih => exact ih

theorem numStep_dead (s : NumState) {c : Char} (h : isNumChar c = false) :
    numStep s c = .dead := by
  simp only [isNumChar, Bool.or_eq_false_iff, beq_eq_false_iff_ne] at h
  obtain ⟨⟨⟨⟨⟨hd, hm⟩, hp⟩, hdot⟩, he⟩, hE⟩ := h
  have h0 : c ≠ '0' := by rintro rfl; exact absurd hd (by decide)
  cases s <;> simp [numStep, *]

theorem isNumChar_of_mem {s : NumState} {cs : List Char}
    (h : (cs.foldl numStep s).accepts = true) : ∀ c ∈ cs, isNumChar c = true := by
  induction cs generalizing s with
  | nil => intro c hc; cases hc
  | cons c cs ih =>
      intro d hd
      by_cases hc : isNumChar c = true
      · rcases List.mem_cons.mp hd with rfl | hd
        · exact hc
        · exact ih h d hd
      · rw [List.foldl_cons, numStep_dead s (by simpa using hc), foldl_dead] at h
        cases h

/-- A number literal starts with its sign or a digit. -/
theorem isNumber_head {cs : List Char} (h : isNumber cs = true) :
    ∃ c rest, cs = c :: rest ∧ (c == '-' || c.isDigit) = true := by
  cases cs with
  | nil => cases h
  | cons c rest =>
      refine ⟨c, rest, rfl, ?_⟩
      by_contra hc
      simp only [Bool.or_eq_true, beq_iff_eq, not_or] at hc
      have h0 : c ≠ '0' := by rintro rfl; exact absurd hc.2 (by decide)
      have hs : numStep .start c = .dead := by simp [numStep, hc.1, h0, hc.2]
      rw [isNumber, List.foldl_cons, hs, foldl_dead] at h
      cases h

/-! ## Tokens -/

inductive Tok
  | lbrace | rbrace | lbrack | rbrack | colon | comma
  | tru | fls | null
  | str (s : String)
  | num (n : NumLit)
  deriving DecidableEq

/-- A character of a string as `serde_json` writes it. -/
def escapeChar (c : Char) : List Char :=
  if c = '"' then ['\\', '"']
  else if c = '\\' then ['\\', '\\']
  else if 32 ≤ c.toNat then [c]
  else if c.toNat = 8 then ['\\', 'b']
  else if c.toNat = 9 then ['\\', 't']
  else if c.toNat = 10 then ['\\', 'n']
  else if c.toNat = 12 then ['\\', 'f']
  else if c.toNat = 13 then ['\\', 'r']
  else ['\\', 'u', '0', '0', hexDigit (c.toNat / 16), hexDigit (c.toNat % 16)]

/-- The text of a token. -/
def Tok.text : Tok → List Char
  | .lbrace => ['{']
  | .rbrace => ['}']
  | .lbrack => ['[']
  | .rbrack => [']']
  | .colon => [':']
  | .comma => [',']
  | .tru => ['t', 'r', 'u', 'e']
  | .fls => ['f', 'a', 'l', 's', 'e']
  | .null => ['n', 'u', 'l', 'l']
  | .str s => '"' :: (s.toList.flatMap escapeChar ++ ['"'])
  | .num n => n.text.toList

/-! ## The machine -/

/-- Where the machine stands between two characters; what it holds, it holds back to front. -/
inductive Mode
  | idle
  | str (acc : List Char)
  | esc (acc : List Char)
  /-- `k` hexadecimal digits to come, after a high surrogate `hi` or none. -/
  | hex (acc : List Char) (hi : Option Nat) (k v : Nat)
  /-- After a high surrogate: the backslash of its partner to come, or the `u` after that. -/
  | low (acc : List Char) (hi : Nat) (backslash : Bool)
  | num (acc : List Char)
  | word (acc : List Char)

def isSpace (c : Char) : Bool := c == ' ' || c == '\n' || c == '\t' || c == '\r'

def isLower (c : Char) : Bool := 'a' ≤ c && c ≤ 'z'

/-- The one-letter escapes. -/
def unescape : Char → Option Char
  | '"' => some '"'
  | '\\' => some '\\'
  | '/' => some '/'
  | 'b' => some (Char.ofNat 8)
  | 't' => some '\t'
  | 'n' => some '\n'
  | 'f' => some (Char.ofNat 12)
  | 'r' => some '\r'
  | _ => none

/-- The fourth digit of a `\u` escape is in: a code point, or one half of a surrogate pair. -/
def closeHex (acc : List Char) (hi : Option Nat) (v : Nat) : Option Mode :=
  match hi with
  | none =>
      if 0xD800 ≤ v ∧ v < 0xDC00 then some (.low acc v false)
      else if 0xDC00 ≤ v ∧ v < 0xE000 then none
      else some (.str (Char.ofNat v :: acc))
  | some h =>
      if 0xDC00 ≤ v ∧ v < 0xE000 then
        some (.str (Char.ofNat (0x10000 + (h - 0xD800) * 0x400 + (v - 0xDC00)) :: acc))
      else none

def closeWord (acc : List Char) : Option Tok :=
  if acc.reverse = Tok.tru.text then some .tru
  else if acc.reverse = Tok.fls.text then some .fls
  else if acc.reverse = Tok.null.text then some .null
  else none

def closeNum (acc : List Char) : Option Tok := (NumLit.ofChars? acc.reverse).map .num

/-- The tokens of one character. -/
def punct? : Char → Option Tok
  | '{' => some .lbrace
  | '}' => some .rbrace
  | '[' => some .lbrack
  | ']' => some .rbrack
  | ':' => some .colon
  | ',' => some .comma
  | _ => none

/-- A character between tokens. -/
def startTok (c : Char) : Option (Mode × List Tok) :=
  match punct? c with
  | some t => some (.idle, [t])
  | none =>
      if isSpace c then some (.idle, [])
      else if c = '"' then some (.str [], [])
      else if c == '-' || c.isDigit then some (.num [c], [])
      else if isLower c then some (.word [c], [])
      else none

/-- `c` ends the token `t?` and is then read between tokens. -/
def endTok (t? : Option Tok) (c : Char) : Option (Mode × List Tok) :=
  match t?, startTok c with
  | some t, some (m, ts) => some (m, t :: ts)
  | _, _ => none

/-- One character. -/
def step : Mode → Char → Option (Mode × List Tok)
  | .idle, c => startTok c
  | .str acc, c =>
      if c = '"' then some (.idle, [.str (String.ofList acc.reverse)])
      else if c = '\\' then some (.esc acc, [])
      else if c.toNat < 32 then none
      else some (.str (c :: acc), [])
  | .esc acc, c =>
      if c = 'u' then some (.hex acc none 4 0, [])
      else (unescape c).map (fun d => (.str (d :: acc), []))
  | .hex acc hi k v, c =>
      match hexValue c, k with
      | some d, 1 => (closeHex acc hi (v * 16 + d)).map (·, [])
      | some d, k + 1 => some (.hex acc hi k (v * 16 + d), [])
      | _, _ => none
  | .low acc hi false, c => if c = '\\' then some (.low acc hi true, []) else none
  | .low acc hi true, c => if c = 'u' then some (.hex acc (some hi) 4 0, []) else none
  | .num acc, c => if isNumChar c then some (.num (c :: acc), []) else endTok (closeNum acc) c
  | .word acc, c => if isLower c then some (.word (c :: acc), []) else endTok (closeWord acc) c

/-- The end of the text. -/
def finish : Mode → Option (List Tok)
  | .idle => some []
  | .num acc => (closeNum acc).map ([·])
  | .word acc => (closeWord acc).map ([·])
  | _ => none

/-- The tokens of the characters that are left. -/
def lexGo : Mode → List Char → Option (List Tok)
  | m, [] => finish m
  | m, c :: cs =>
      match step m c with
      | none => none
      | some (m', ts) => (lexGo m' cs).map (ts ++ ·)

/-- The tokens of a text. -/
def lex (cs : List Char) : Option (List Tok) := lexGo .idle cs

/-! ## A token's text reads back -/

theorem lexGo_cons_of_step {m n : Mode} {c : Char} (h : step m c = some (n, []))
    (rest : List Char) : lexGo m (c :: rest) = lexGo n rest := by
  simp [lexGo, h]

/-- Inside a string, what `escapeChar` writes for a character reads as the character. -/
theorem lexGo_escapeChar (acc : List Char) (c : Char) (rest : List Char) :
    lexGo (.str acc) (escapeChar c ++ rest) = lexGo (.str (c :: acc)) rest := by
  have esc : ∀ d e : Char, d ≠ 'u' → unescape d = some e →
      lexGo (.str acc) ('\\' :: d :: rest) = lexGo (.str (e :: acc)) rest := by
    intro d e hd he
    rw [lexGo_cons_of_step (n := .esc acc) rfl, lexGo_cons_of_step (n := .str (e :: acc))]
    simp [step, hd, he]
  have of_code : ∀ n : Nat, c.toNat = n → c = Char.ofNat n := by
    intro n hn
    rw [← hn, Char.ofNat_toNat]
  unfold escapeChar
  split
  next hq => rw [hq]; exact esc '"' '"' (by decide) rfl
  next hq =>
  split
  next hb => rw [hb]; exact esc '\\' '\\' (by decide) rfl
  next hb =>
  split
  next h32 => exact lexGo_cons_of_step (by simp [step, hq, hb, Nat.not_lt.mpr h32]) rest
  next h32 =>
  split
  next h => rw [of_code 8 h]; exact esc 'b' _ (by decide) rfl
  split
  next h => rw [of_code 9 h]; exact esc 't' _ (by decide) rfl
  split
  next h => rw [of_code 10 h]; exact esc 'n' _ (by decide) rfl
  split
  next h => rw [of_code 12 h]; exact esc 'f' _ (by decide) rfl
  split
  next h => rw [of_code 13 h]; exact esc 'r' _ (by decide) rfl
  · -- a `\u00xy` escape: six characters, the code point put together from the last two
    have hhi := hexValue_hexDigit (n := c.toNat / 16) (by omega)
    have hlo := hexValue_hexDigit (n := c.toNat % 16) (by omega)
    have hv : (c.toNat / 16) * 16 + c.toNat % 16 = c.toNat := by omega
    show lexGo (.str acc) ('\\' :: 'u' :: '0' :: '0' :: hexDigit (c.toNat / 16) ::
      hexDigit (c.toNat % 16) :: rest) = _
    rw [lexGo_cons_of_step (n := .esc acc) rfl,
      lexGo_cons_of_step (n := .hex acc none 4 0) rfl,
      lexGo_cons_of_step (n := .hex acc none 3 0) rfl,
      lexGo_cons_of_step (n := .hex acc none 2 0) rfl,
      lexGo_cons_of_step (n := .hex acc none 1 (c.toNat / 16)) (by simp [step, hhi]),
      lexGo_cons_of_step (n := .str (c :: acc))]
    simp only [step, hlo, hv, closeHex]
    rw [if_neg (by omega), if_neg (by omega), Char.ofNat_toNat]
    rfl

theorem lexGo_escaped (acc cs rest : List Char) :
    lexGo (.str acc) (cs.flatMap escapeChar ++ rest) = lexGo (.str (cs.reverse ++ acc)) rest := by
  induction cs generalizing acc with
  | nil => rfl
  | cons c cs ih =>
      rw [List.flatMap_cons, List.append_assoc, lexGo_escapeChar, ih]
      simp

theorem lexGo_numChars (acc cs rest : List Char) (h : ∀ c ∈ cs, isNumChar c = true) :
    lexGo (.num acc) (cs ++ rest) = lexGo (.num (cs.reverse ++ acc)) rest := by
  induction cs generalizing acc with
  | nil => rfl
  | cons c cs ih =>
      have hc := h c List.mem_cons_self
      rw [List.cons_append, lexGo_cons_of_step (n := .num (c :: acc)) (by simp [step, hc]),
        ih (c :: acc) (fun d hd => h d (List.mem_cons_of_mem _ hd))]
      simp

theorem lexGo_letters (acc cs rest : List Char) (h : ∀ c ∈ cs, isLower c = true) :
    lexGo (.word acc) (cs ++ rest) = lexGo (.word (cs.reverse ++ acc)) rest := by
  induction cs generalizing acc with
  | nil => rfl
  | cons c cs ih =>
      have hc := h c List.mem_cons_self
      rw [List.cons_append, lexGo_cons_of_step (n := .word (c :: acc)) (by simp [step, hc]),
        ih (c :: acc) (fun d hd => h d (List.mem_cons_of_mem _ hd))]
      simp

/-- What may follow a word or a number: the end, or a character that continues neither. -/
def Stops (rest : List Char) : Prop :=
  ∀ c ∈ rest.head?, isNumChar c = false ∧ isLower c = false

theorem Stops.nil : Stops [] := by
  intro c hc
  cases hc

theorem Stops.tok {t : Tok} (h : t ∈ [Tok.rbrace, .rbrack, .comma]) (rest : List Char) :
    Stops (t.text ++ rest) := by
  have hall : ∀ t ∈ [Tok.rbrace, .rbrack, .comma],
      (t.text.all fun c => !isNumChar c && !isLower c) = true := by decide
  have hne : ∀ t ∈ [Tok.rbrace, .rbrack, .comma], t.text ≠ [] := by decide
  intro c hc
  rw [List.head?_append_of_ne_nil _ (hne t h)] at hc
  simpa using List.all_eq_true.mp (hall t h) c (List.mem_of_mem_head? hc)

/-- A word or a number that stops: its token, and then the rest from between tokens. -/
theorem lexGo_stops {m : Mode} {o : Option Tok} {t : Tok} {rest : List Char}
    (hfin : finish m = o.map ([·]))
    (hstep : ∀ c, isNumChar c = false → isLower c = false → step m c = endTok o c)
    (ht : o = some t) (h : Stops rest) :
    lexGo m rest = (lexGo .idle rest).map (t :: ·) := by
  subst ht
  cases rest with
  | nil => exact hfin
  | cons c cs =>
      obtain ⟨hn, hl⟩ := h c rfl
      simp only [lexGo, hstep c hn hl, endTok]
      show _ = ((match startTok c with
        | none => none
        | some (m', ts) => (lexGo m' cs).map (ts ++ ·)) : Option (List Tok)).map (t :: ·)
      cases startTok c with
      | none => rfl
      | some p =>
          obtain ⟨m', ts⟩ := p
          simp [Option.map_map, Function.comp_def]

theorem lexGo_num (n : NumLit) {rest : List Char} (h : Stops rest) :
    lexGo .idle (n.text.toList ++ rest) = (lexGo .idle rest).map (.num n :: ·) := by
  obtain ⟨c, cs, hcs, hc⟩ := isNumber_head n.wf
  have hmem := isNumChar_of_mem (s := .start) n.wf
  rw [hcs] at hmem
  have hstart : step .idle c = some (.num [c], []) := by
    have ne : ∀ d, (d == '-' || d.isDigit) = false → c ≠ d := by
      rintro d hd rfl
      rw [hc] at hd
      cases hd
    have hp : punct? c = none := by
      unfold punct?
      split
      all_goals first | rfl | exact absurd rfl (ne _ (by decide))
    have hs : isSpace c = false := by
      simp [isSpace, ne ' ' (by decide), ne '\n' (by decide), ne '\t' (by decide),
        ne '\r' (by decide)]
    simp [step, startTok, hp, hs, ne '"' (by decide), hc]
  rw [hcs, List.cons_append, lexGo_cons_of_step hstart,
    lexGo_numChars [c] cs rest (fun d hd => hmem d (List.mem_cons_of_mem _ hd))]
  refine lexGo_stops (o := closeNum (cs.reverse ++ [c])) rfl ?_ ?_ h
  · intro d hd _
    simp [step, hd]
  · simp [closeNum, ← hcs]

/-- A token whose text a following character could continue. -/
def Tok.wordy : Tok → Bool
  | .tru | .fls | .null | .num _ => true
  | _ => false

/-- A token's text, then something that does not continue it, reads as the token. -/
theorem lex_tok (t : Tok) {rest : List Char} (h : t.wordy = true → Stops rest) :
    lexGo .idle (t.text ++ rest) = (lexGo .idle rest).map (t :: ·) := by
  have punct : ∀ c : Char, step .idle c = some (.idle, [t]) →
      lexGo .idle (c :: rest) = (lexGo .idle rest).map (t :: ·) := by
    intro c hc
    rw [lexGo, hc]
    rfl
  have word : ∀ c cs, step .idle c = some (.word [c], []) → (∀ d ∈ cs, isLower d = true) →
      closeWord (cs.reverse ++ [c]) = some t → t.wordy = true →
      lexGo .idle (c :: cs ++ rest) = (lexGo .idle rest).map (t :: ·) := by
    intro c cs hc hcs hclose hw
    rw [List.cons_append, lexGo_cons_of_step hc, lexGo_letters [c] cs rest hcs]
    exact lexGo_stops rfl (fun d _ hd => by simp [step, hd]) hclose (h hw)
  cases t with
  | lbrace => exact punct '{' rfl
  | rbrace => exact punct '}' rfl
  | lbrack => exact punct '[' rfl
  | rbrack => exact punct ']' rfl
  | colon => exact punct ':' rfl
  | comma => exact punct ',' rfl
  | tru => exact word 't' ['r', 'u', 'e'] rfl (List.all_eq_true.mp rfl) rfl rfl
  | fls => exact word 'f' ['a', 'l', 's', 'e'] rfl (List.all_eq_true.mp rfl) rfl rfl
  | null => exact word 'n' ['u', 'l', 'l'] rfl (List.all_eq_true.mp rfl) rfl rfl
  | num n => exact lexGo_num n (h rfl)
  | str s =>
      show lexGo .idle ('"' :: (s.toList.flatMap escapeChar ++ ['"'] ++ rest)) = _
      rw [lexGo_cons_of_step (n := .str []) rfl, List.append_assoc, lexGo_escaped]
      simp [lexGo, step]

/-! ## What a text is made of -/

/-- No control character is ever written. -/
theorem le_of_mem_text (t : Tok) : ∀ c ∈ t.text, 32 ≤ c.toNat := by
  have fixed : ∀ t ∈ [Tok.lbrace, .rbrace, .lbrack, .rbrack, .colon, .comma, .tru, .fls, .null],
      ∀ c ∈ t.text, 32 ≤ c.toNat := by
    have hall : ∀ t ∈ [Tok.lbrace, .rbrace, .lbrack, .rbrack, .colon, .comma, .tru, .fls, .null],
        (t.text.all fun c => decide (32 ≤ c.toNat)) = true := by decide
    intro t ht c hc
    simpa using List.all_eq_true.mp (hall t ht) c hc
  cases t with
  | num n =>
      intro c hc
      have h := isNumChar_of_mem (s := .start) n.wf c hc
      by_contra hlt
      have hsmall : ∀ k < 32, isNumChar (Char.ofNat k) = false := by decide
      have := hsmall c.toNat (by omega)
      rw [Char.ofNat_toNat, h] at this
      cases this
  | str s =>
      intro c hc
      have hdigit : ∀ k < 16, 32 ≤ (hexDigit k).toNat := by decide
      have hesc : ∀ d : Char, ∀ c ∈ escapeChar d, 32 ≤ c.toNat := by
        intro d
        unfold escapeChar
        split
        · simp
        split
        · simp
        split
        · next h32 => simpa using h32
        iterate 5
          split
          · simp
        simp only [List.forall_mem_cons, List.not_mem_nil, false_implies, implies_true, and_true]
        exact ⟨by decide, by decide, by decide, by decide, hdigit _ (by omega),
          hdigit _ (by omega)⟩
      simp only [Tok.text, List.mem_cons, List.mem_append, List.mem_flatMap,
        List.not_mem_nil, or_false] at hc
      rcases hc with rfl | ⟨d, -, hd⟩ | rfl
      · decide
      · exact hesc d c hd
      · decide
  | _ => exact fixed _ (by decide)

/-! ## No string is longer than its text -/

/-- How many characters the machine holds. -/
def Mode.held : Mode → Nat
  | .idle => 0
  | .str acc | .esc acc | .hex acc _ _ _ | .low acc _ _ | .num acc | .word acc => acc.length

/-- The string of a token has at most `n` characters. -/
def Tok.strLe (n : Nat) : Tok → Prop
  | .str s => s.toList.length ≤ n
  | _ => True

theorem startTok_held {c : Char} {m : Mode} {ts : List Tok} (h : startTok c = some (m, ts)) :
    m.held ≤ 1 ∧ ∀ t ∈ ts, ∀ n, t.strLe n := by
  unfold startTok at h
  split at h
  · next t ht =>
      cases h
      refine ⟨Nat.zero_le _, fun u hu n => ?_⟩
      rcases List.mem_singleton.mp hu with rfl
      unfold punct? at ht
      split at ht <;> cases ht <;> trivial
  · split_ifs at h <;> cases h <;> simp [Mode.held]

theorem endTok_held {t? : Option Tok} {c : Char} {m : Mode} {ts : List Tok}
    (ht : ∀ t ∈ t?, ∀ n, t.strLe n) (h : endTok t? c = some (m, ts)) :
    m.held ≤ 1 ∧ ∀ t ∈ ts, ∀ n, t.strLe n := by
  unfold endTok at h
  split at h
  · next t m' ts' hs =>
      obtain ⟨hm, hts⟩ := startTok_held hs
      cases h
      refine ⟨hm, fun t' ht' => ?_⟩
      rcases List.mem_cons.mp ht' with rfl | ht'
      · exact ht _ rfl
      · exact hts t' ht'
  · cases h

theorem closeNum_strLe {acc : List Char} : ∀ t ∈ closeNum acc, ∀ n, t.strLe n := by
  intro t ht n
  simp only [closeNum, Option.mem_def, Option.map_eq_some_iff] at ht
  obtain ⟨l, -, rfl⟩ := ht
  trivial

theorem closeWord_strLe {acc : List Char} : ∀ t ∈ closeWord acc, ∀ n, t.strLe n := by
  intro t ht n
  unfold closeWord at ht
  split_ifs at ht <;> cases ht <;> trivial

/-- One character adds at most one to what is held, and a string that ends here was held. -/
theorem step_held {m m' : Mode} {c : Char} {ts : List Tok} (h : step m c = some (m', ts)) :
    m'.held ≤ m.held + 1 ∧ ∀ t ∈ ts, t.strLe m.held := by
  cases m with
  | idle =>
      obtain ⟨hm, hts⟩ := startTok_held h
      exact ⟨by simpa [Mode.held] using hm, fun t ht => hts t ht _⟩
  | str acc =>
      simp only [step] at h
      split_ifs at h
      all_goals
        cases h
        simp [Mode.held, Tok.strLe]
  | esc acc =>
      simp only [step] at h
      split_ifs at h
      · cases h; simp [Mode.held]
      · simp only [Option.map_eq_some_iff, Prod.mk.injEq] at h
        obtain ⟨d, -, rfl, rfl⟩ := h
        simp [Mode.held]
  | hex acc hi k v =>
      simp only [step] at h
      split at h
      · simp only [Option.map_eq_some_iff, Prod.mk.injEq] at h
        obtain ⟨m'', hm, rfl, rfl⟩ := h
        unfold closeHex at hm
        cases hi <;> simp only at hm <;> split_ifs at hm <;> cases hm <;> simp [Mode.held]
      · cases h; simp [Mode.held]
      · cases h
  | low acc hi b =>
      cases b <;> simp only [step] at h <;> split_ifs at h <;> cases h <;> simp [Mode.held]
  | num acc =>
      simp only [step] at h
      split_ifs at h
      · cases h; simp [Mode.held]
      · obtain ⟨hm, hts⟩ := endTok_held closeNum_strLe h
        exact ⟨by simp only [Mode.held] at hm ⊢; omega, fun t ht => hts t ht _⟩
  | word acc =>
      simp only [step] at h
      split_ifs at h
      · cases h; simp [Mode.held]
      · obtain ⟨hm, hts⟩ := endTok_held closeWord_strLe h
        exact ⟨by simp only [Mode.held] at hm ⊢; omega, fun t ht => hts t ht _⟩

theorem Tok.strLe.mono {t : Tok} {n n' : Nat} (h : t.strLe n) (hn : n ≤ n') : t.strLe n' := by
  cases t with
  | str s => exact Nat.le_trans h hn
  | _ => trivial

theorem lexGo_strLe {m : Mode} {cs : List Char} {ts : List Tok} {n : Nat}
    (h : lexGo m cs = some ts) (hn : m.held + cs.length ≤ n) : ∀ t ∈ ts, t.strLe n := by
  induction cs generalizing m ts with
  | nil =>
      intro t ht
      cases m <;> simp only [lexGo, finish, Option.map_eq_some_iff] at h
      case idle => cases h; cases ht
      case num acc =>
        obtain ⟨u, hu, rfl⟩ := h
        rcases List.mem_singleton.mp ht with rfl
        exact closeNum_strLe _ hu _
      case word acc =>
        obtain ⟨u, hu, rfl⟩ := h
        rcases List.mem_singleton.mp ht with rfl
        exact closeWord_strLe _ hu _
      all_goals cases h
  | cons c cs ih =>
      simp only [lexGo] at h
      split at h
      · cases h
      · next m' ts' hs =>
          obtain ⟨hm, hts⟩ := step_held hs
          simp only [Option.map_eq_some_iff] at h
          obtain ⟨us, hus, rfl⟩ := h
          simp only [List.length_cons] at hn
          intro t ht
          rcases List.mem_append.mp ht with ht | ht
          · exact (hts t ht).mono (by omega)
          · exact ih hus (by omega) t ht

/-- A string in a text is no longer than the text. -/
theorem lex_strLe {cs : List Char} {ts : List Tok} (h : lex cs = some ts) :
    ∀ t ∈ ts, t.strLe cs.length :=
  lexGo_strLe h (by simp [Mode.held])

end Json

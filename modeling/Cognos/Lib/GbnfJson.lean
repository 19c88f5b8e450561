/-
# `Cognos.Lib.GbnfJson` — rules for JSON texts, and the values they spell

A generator's grammar fixes the layout of the JSON it lets through.  The layout here has one
space inside each bracket, behind each colon and around each comma:

    { "key": value , "key": value }      [ value , value ]      [  ]

`Spells` is what a part of such a text is to the reader, `Forms g r P` that whatever `r`
derives spells a value with `P`; there is one lemma for each kind of rule.
-/
import Mathlib
import Cognos.Lib.Gbnf
import Cognos.Lib.Json.Value

namespace Gbnf

open Json

/-! ## Parts of a text -/

/-- In front of what stops a word or a number, the characters read as the tokens. -/
def Spells (cs : List Char) (ts : List Tok) : Prop :=
  ∀ rest, Stops rest → lexGo .idle (cs ++ rest) = (lexGo .idle rest).map (ts ++ ·)

/-- They do so in front of anything. -/
def Marks (cs : List Char) (ts : List Tok) : Prop :=
  ∀ rest, lexGo .idle (cs ++ rest) = (lexGo .idle rest).map (ts ++ ·)

theorem Marks.spells {cs : List Char} {ts : List Tok} (h : Marks cs ts) : Spells cs ts :=
  fun rest _ => h rest

theorem Marks.nil : Marks [] [] := by
  intro rest
  simp

theorem Marks.tok {t : Tok} (h : t.wordy = false) : Marks t.text [t] := by
  intro rest
  exact lex_tok t (by simp [h])

theorem Marks.space : Marks [' '] [] := by
  intro rest
  show lexGo .idle (' ' :: rest) = _
  rw [lexGo_cons_of_step (n := .idle) rfl]
  simp

theorem Marks.append {cs ds : List Char} {ts us : List Tok} (h : Marks cs ts) (h' : Marks ds us) :
    Marks (cs ++ ds) (ts ++ us) := by
  intro rest
  rw [List.append_assoc, h, h']
  simp [Option.map_map, Function.comp_def]

theorem Marks.append_spells {cs ds : List Char} {ts us : List Tok} (h : Marks cs ts)
    (h' : Spells ds us) : Spells (cs ++ ds) (ts ++ us) := by
  intro rest hrest
  rw [List.append_assoc, h, h' rest hrest]
  simp [Option.map_map, Function.comp_def]

/-- What stops, behind a word or a number. -/
theorem Spells.append {cs ds : List Char} {ts us : List Tok} (h : Spells cs ts)
    (hstops : ∀ rest, Stops rest → Stops (ds ++ rest)) (h' : Spells ds us) :
    Spells (cs ++ ds) (ts ++ us) := by
  intro rest hrest
  rw [List.append_assoc, h _ (hstops rest hrest), h' rest hrest]
  simp [Option.map_map, Function.comp_def]

/-- What starts with a stopping character, behind one. -/
theorem Spells.append_marks {cs ds : List Char} {ts us : List Tok} (h : Spells cs ts)
    (hstops : ∀ rest, Stops (ds ++ rest)) (h' : Marks ds us) : Marks (cs ++ ds) (ts ++ us) := by
  intro rest
  rw [List.append_assoc, h _ (hstops rest), h']
  simp [Option.map_map, Function.comp_def]

theorem stops_space (rest : List Char) : Stops (' ' :: rest) := by
  rintro c ⟨⟩
  decide

/-- A value and the space behind it. -/
theorem Spells.space {cs : List Char} {ts : List Tok} (h : Spells cs ts) :
    Marks (cs ++ [' ']) ts := by
  have := h.append_marks stops_space Marks.space
  rwa [List.append_nil] at this

theorem Spells.tok (t : Tok) : Spells t.text [t] := by
  intro rest h
  exact lex_tok t fun _ => h

theorem parseText_of_spells {cs : List Char} {v : Value} (h : Spells cs v.toks) :
    parseText (String.ofList cs) = some v := by
  have hlex : lex cs = some v.toks := by
    have := h [] Stops.nil
    rw [List.append_nil] at this
    simpa [lex, lexGo, finish] using this
  rw [parseText, String.toList_ofList, hlex]
  exact parse_toks v

/-- A character a string holds as it is. -/
def plain (c : Char) : Bool := 32 ≤ c.toNat && c != '"' && c != '\\'

theorem plain_of_inClass {ranges : List (Char × Char)} {c : Char}
    (hranges : ∀ r ∈ ranges, ' ' ≤ r.1 ∧ (r.2 < '"' ∨ '"' < r.1) ∧ (r.2 < '\\' ∨ '\\' < r.1))
    (h : Text.inClass ranges c = true) : plain c = true := by
  obtain ⟨r, hr, hc⟩ := List.any_eq_true.mp h
  simp only [Bool.and_eq_true, decide_eq_true_eq] at hc
  obtain ⟨hspace, hquote, hslash⟩ := hranges r hr
  simp only [plain, Bool.and_eq_true, decide_eq_true_eq, bne_iff_ne]
  refine ⟨⟨?_, ?_⟩, ?_⟩
  · exact le_trans hspace hc.1
  · rintro rfl
    rcases hquote with h | h
    · exact absurd hc.2 (not_le.mpr h)
    · exact absurd hc.1 (not_le.mpr h)
  · rintro rfl
    rcases hslash with h | h
    · exact absurd hc.2 (not_le.mpr h)
    · exact absurd hc.1 (not_le.mpr h)

theorem escapeChar_of_plain {c : Char} (h : plain c = true) : escapeChar c = [c] := by
  simp only [plain, Bool.and_eq_true, decide_eq_true_eq, bne_iff_ne] at h
  rw [escapeChar, if_neg h.1.2, if_neg h.2, if_pos h.1.1]

theorem marks_str {cs : List Char} (h : ∀ c ∈ cs, plain c = true) :
    Marks ('"' :: (cs ++ ['"'])) [.str (String.ofList cs)] := by
  have hescape : cs.flatMap escapeChar = cs := by
    induction cs with
    | nil => rfl
    | cons c cs ih =>
        rw [List.flatMap_cons, escapeChar_of_plain (h c List.mem_cons_self),
          ih fun d hd => h d (List.mem_cons_of_mem _ hd)]
        rfl
  have := Marks.tok (t := .str (String.ofList cs)) rfl
  rwa [Tok.text, String.toList_ofList, hescape] at this

/-! ## What a right-hand side spells -/

/-- Whatever is derived spells a value with `P`. -/
def Forms (g : Grammar) (r : Rhs) (P : Value → Prop) : Prop :=
  ∀ cs, Derives g r cs → ∃ v, P v ∧ Spells cs v.toks

section Rules

variable {g : Grammar} {P Q : Value → Prop}

theorem Forms.mono {r : Rhs} (h : Forms g r P) (himp : ∀ v, P v → Q v) : Forms g r Q := by
  intro cs hcs
  obtain ⟨v, hv, hspells⟩ := h cs hcs
  exact ⟨v, himp v hv, hspells⟩

theorem Forms.rule {name : String} {r : Rhs} (hr : g.lookup name = some r) (h : Forms g r P) :
    Forms g (.rule name) P := by
  intro cs hcs
  obtain ⟨r', hr', hcs⟩ := derives_rule_iff.mp hcs
  obtain rfl := Option.some.inj (hr.symm.trans hr')
  exact h cs hcs

theorem Forms.alt {rs : List Rhs} (h : ∀ r ∈ rs, Forms g r P) : Forms g (.alt rs) P := by
  intro cs hcs
  obtain ⟨r, hr, hcs⟩ := derives_alt_iff.mp hcs
  exact h r hr cs hcs

/-- A literal that is the text of a value of one token. -/
theorem Forms.lit {s : String} {v : Value} {t : Tok} (hs : s.toList = t.text) (hv : v.toks = [t])
    (h : P v) : Forms g (.lit s) P := by
  intro cs hcs
  rw [derives_lit_iff.mp hcs, hs]
  refine ⟨v, h, ?_⟩
  rw [hv]
  exact Spells.tok t

/-- A string in its quotes. -/
def quoted (t : String) : Rhs := .lit ("\"" ++ t ++ "\"")

theorem Forms.quoted {t : String} (ht : t.toList.all plain = true) (h : P (.str t)) :
    Forms g (quoted t) P := by
  intro cs hcs
  have htext : ("\"" ++ t ++ "\"").toList = '"' :: (t.toList ++ ['"']) := by simp
  rw [derives_lit_iff.mp hcs, htext]
  refine ⟨.str t, h, ?_⟩
  have := (marks_str (List.all_eq_true.mp ht)).spells
  rwa [String.ofList_toList] at this

/-- Some strings in quotes: one of them. -/
theorem Forms.strings {ts : List String} (hts : ∀ t ∈ ts, t.toList.all plain = true)
    (h : ∀ t ∈ ts, P (.str t)) : Forms g (.alt (ts.map Gbnf.quoted)) P := by
  refine .alt fun r hr => ?_
  obtain ⟨t, ht, rfl⟩ := List.mem_map.mp hr
  exact .quoted (hts t ht) (h t ht)

/-- A string of some characters of a class. -/
def textOf (item : Rhs) (lo hi : Nat) : Rhs := .seq [.lit "\"", .rep item lo (some hi), .lit "\""]

theorem Forms.textOf {item : Rhs} {lo hi : Nat} (ranges : List (Char × Char))
    (hitem : ∀ cs, Derives g item cs → ∃ c, cs = [c] ∧ Text.inClass ranges c = true)
    (hplain : ∀ c, Text.inClass ranges c = true → plain c = true)
    (h : ∀ t : String, (∀ c ∈ t.toList, Text.inClass ranges c = true) → lo ≤ t.toList.length →
      t.toList.length ≤ hi → P (.str t)) : Forms g (textOf item lo hi) P := by
  intro cs hcs
  obtain ⟨es, rfl, hes⟩ := derives_lit_cons_iff.mp hcs
  obtain ⟨ds, fs, rfl, hds, hfs⟩ := derives_cons_iff.mp hes
  obtain ⟨rest, rfl, hrest⟩ := derives_lit_cons_iff.mp hfs
  obtain rfl := derives_nil_iff.mp hrest
  obtain ⟨hclass, hlo, hhi⟩ := chars_of_rep hitem hds
  refine ⟨.str (String.ofList ds), h _ ?_ ?_ ?_,
    (marks_str fun c hc => hplain c (hclass c hc)).spells⟩
  · rwa [String.toList_ofList]
  · rwa [String.toList_ofList]
  · rw [String.toList_ofList]
    exact hhi hi rfl

/-! ## Objects and arrays -/

/-- The rule for one space. -/
def space : Rhs := .rule "space"

/-- Key and value, and the space behind. -/
def member (m : String × Rhs) : List Rhs := [.lit ("\"" ++ m.1 ++ "\":"), space, m.2, space]

/-- The members behind the first, and the brace. -/
def members : List (String × Rhs) → List Rhs
  | [] => [.lit "\x7d"]
  | m :: ms => .lit "," :: space :: (member m ++ members ms)

def object : List (String × Rhs) → Rhs
  | [] => .seq [.lit "\x7b", space, .lit "\x7d"]
  | m :: ms => .seq (.lit "\x7b" :: space :: (member m ++ members ms))

/-- An element behind the first. -/
def element (item : Rhs) : Rhs := .seq [space, .lit ",", space, item]

def array (item : Rhs) : Rhs :=
  .seq [.lit "[", space, .opt (.seq [item, .star (element item)]), space, .lit "]"]

/-- With two elements at least. -/
def arrayOfMany (item : Rhs) : Rhs :=
  .seq [.lit "[", space, item, .plus (element item), space, .lit "]"]

variable (hspace : g.lookup "space" = some (.lit " "))

include hspace

theorem derives_space_iff {cs : List Char} : Derives g space cs ↔ cs = [' '] := by
  rw [space, derives_rule_iff]
  constructor
  · rintro ⟨r, hr, hcs⟩
    obtain rfl := Option.some.inj (hspace.symm.trans hr)
    exact derives_lit_iff.mp hcs
  · rintro rfl
    exact ⟨_, hspace, .lit⟩

theorem derives_space_cons_iff {rs : List Rhs} {cs : List Char} :
    Derives g (.seq (space :: rs)) cs ↔ ∃ es, cs = ' ' :: es ∧ Derives g (.seq rs) es := by
  rw [derives_cons_iff]
  constructor
  · rintro ⟨ds, es, rfl, hds, hrs⟩
    rw [(derives_space_iff hspace).mp hds]
    exact ⟨es, rfl, hrs⟩
  · rintro ⟨es, rfl, hrs⟩
    exact ⟨[' '], es, rfl, (derives_space_iff hspace).mpr rfl, hrs⟩

/-- A member, and what is behind it. -/
theorem marks_of_member {m : String × Rhs} {rs : List Rhs} {cs : List Char}
    (hkey : m.1.toList.all plain = true) (hvalue : Forms g m.2 P)
    (h : Derives g (.seq (member m ++ rs)) cs) :
    ∃ v ds es, P v ∧ cs = ds ++ es ∧ Marks ds (.str m.1 :: .colon :: v.toks) ∧
      Derives g (.seq rs) es := by
  obtain ⟨cs₁, rfl, h₁⟩ := derives_lit_cons_iff.mp h
  obtain ⟨cs₂, rfl, h₂⟩ := (derives_space_cons_iff hspace).mp h₁
  obtain ⟨ds, cs₃, rfl, hds, h₃⟩ := derives_cons_iff.mp h₂
  obtain ⟨es, rfl, hes⟩ := (derives_space_cons_iff hspace).mp h₃
  obtain ⟨v, hv, hspells⟩ := hvalue ds hds
  have hmarks : Marks (("\"" ++ m.1 ++ "\":").toList ++ [' ']) [.str m.1, .colon] := by
    have htext : ("\"" ++ m.1 ++ "\":").toList ++ [' '] =
        '"' :: (m.1.toList ++ ['"']) ++ ([':'] ++ [' ']) := by simp
    rw [htext]
    have hname := marks_str (List.all_eq_true.mp hkey)
    rw [String.ofList_toList] at hname
    exact hname.append ((Marks.tok (t := .colon) rfl).append Marks.space)
  refine ⟨v, ("\"" ++ m.1 ++ "\":").toList ++ [' '] ++ (ds ++ [' ']), es, hv, by simp, ?_, hes⟩
  exact hmarks.append hspells.space

/-- The members behind the first, each with what its value has, and the brace. -/
theorem marks_of_members {P : String → Value → Prop} {ms : List (String × Rhs)}
    (hkeys : ∀ m ∈ ms, m.1.toList.all plain = true)
    (hvalues : ∀ m ∈ ms, Forms g m.2 (P m.1)) {cs : List Char}
    (h : Derives g (.seq (members ms)) cs) :
    ∃ fs, fs.map Prod.fst = ms.map Prod.fst ∧ (∀ f ∈ fs, P f.1 f.2) ∧
      Marks cs (fieldToks fs ++ [.rbrace]) := by
  induction ms generalizing cs with
  | nil =>
      obtain ⟨es, rfl, hes⟩ := derives_lit_cons_iff.mp h
      obtain rfl := derives_nil_iff.mp hes
      exact ⟨[], rfl, by simp, Marks.tok (t := .rbrace) rfl⟩
  | cons m ms ih =>
      obtain ⟨cs₁, rfl, h₁⟩ := derives_lit_cons_iff.mp h
      obtain ⟨cs₂, rfl, h₂⟩ := (derives_space_cons_iff hspace).mp h₁
      obtain ⟨v, ds, es, hv, rfl, hmarks, hes⟩ := marks_of_member hspace
        (hkeys m List.mem_cons_self) (hvalues m List.mem_cons_self) h₂
      obtain ⟨fs, hnames, hfs, hrest⟩ := ih (fun m' hm' => hkeys m' (List.mem_cons_of_mem _ hm'))
        (fun m' hm' => hvalues m' (List.mem_cons_of_mem _ hm')) hes
      refine ⟨(m.1, v) :: fs, congrArg (m.1 :: ·) hnames, List.forall_mem_cons.mpr ⟨hv, hfs⟩, ?_⟩
      have := (Marks.tok (t := .comma) rfl).append (Marks.space.append (hmarks.append hrest))
      simpa [fieldToks, Tok.text] using this

/-- An object has the members of its rule, in their order. -/
theorem Forms.object {P : String → Value → Prop} {ms : List (String × Rhs)}
    (names : List String) (hnames : ms.map Prod.fst = names)
    (hplain : ∀ name ∈ names, name.toList.all plain = true)
    (hvalues : ∀ m ∈ ms, Forms g m.2 (P m.1)) :
    Forms g (object ms) fun v =>
      ∃ fs, v = .obj fs ∧ fs.map Prod.fst = names ∧ ∀ f ∈ fs, P f.1 f.2 := by
  subst hnames
  have hkeys : ∀ m ∈ ms, m.1.toList.all plain = true := fun m hm =>
    hplain m.1 (List.mem_map_of_mem hm)
  intro cs hcs
  cases ms with
  | nil =>
      obtain ⟨cs₁, rfl, h₁⟩ := derives_lit_cons_iff.mp hcs
      obtain ⟨cs₂, rfl, h₂⟩ := (derives_space_cons_iff hspace).mp h₁
      obtain ⟨cs₃, rfl, h₃⟩ := derives_lit_cons_iff.mp h₂
      obtain rfl := derives_nil_iff.mp h₃
      refine ⟨.obj [], ⟨[], rfl, rfl, by simp⟩, ?_⟩
      exact ((Marks.tok (t := .lbrace) rfl).append
        (Marks.space.append (Marks.tok (t := .rbrace) rfl))).spells
  | cons m ms =>
      obtain ⟨cs₁, rfl, h₁⟩ := derives_lit_cons_iff.mp hcs
      obtain ⟨cs₂, rfl, h₂⟩ := (derives_space_cons_iff hspace).mp h₁
      obtain ⟨v, ds, es, hv, rfl, hmarks, hes⟩ := marks_of_member hspace
        (hkeys m List.mem_cons_self) (hvalues m List.mem_cons_self) h₂
      obtain ⟨fs, hnames, hfs, hrest⟩ := marks_of_members hspace
        (fun m' hm' => hkeys m' (List.mem_cons_of_mem _ hm'))
        (fun m' hm' => hvalues m' (List.mem_cons_of_mem _ hm')) hes
      refine ⟨.obj ((m.1, v) :: fs), ⟨_, rfl, congrArg (m.1 :: ·) hnames,
        List.forall_mem_cons.mpr ⟨hv, hfs⟩⟩, ?_⟩
      have := (Marks.tok (t := .lbrace) rfl).append (Marks.space.append (hmarks.append hrest))
      simpa [fieldToks, Value.toks, Tok.text] using this.spells

/-- Elements behind the first. -/
theorem spells_of_elements {item : Rhs} (hitem : Forms g item P) {css : List (List Char)}
    (h : ∀ cs ∈ css, Derives g (element item) cs) :
    ∃ vs, (∀ v ∈ vs, P v) ∧ vs.length = css.length ∧ Spells css.flatten (elemToks vs) ∧
      ∀ rest, Stops rest → Stops (css.flatten ++ rest) := by
  induction css with
  | nil => exact ⟨[], by simp, rfl, Marks.nil.spells, fun rest hrest => hrest⟩
  | cons cs css ih =>
      obtain ⟨vs, hvs, hlength, hspells, hstops⟩ :=
        ih fun ds hds => h ds (List.mem_cons_of_mem _ hds)
      obtain ⟨cs₁, rfl, h₁⟩ := (derives_space_cons_iff hspace).mp (h _ List.mem_cons_self)
      obtain ⟨cs₂, rfl, h₂⟩ := derives_lit_cons_iff.mp h₁
      obtain ⟨cs₃, rfl, h₃⟩ := (derives_space_cons_iff hspace).mp h₂
      obtain ⟨cs, ds, rfl, hcs, hds⟩ := derives_cons_iff.mp h₃
      obtain rfl := derives_nil_iff.mp hds
      obtain ⟨v, hv, hvalue⟩ := hitem cs hcs
      refine ⟨v :: vs, List.forall_mem_cons.mpr ⟨hv, hvs⟩, congrArg (· + 1) hlength, ?_,
        fun rest _ => stops_space _⟩
      have hfirst := hvalue.append hstops hspells
      have hcomma := Marks.space.append ((Marks.tok (t := .comma) rfl).append Marks.space)
      simpa [elemToks, Tok.text] using hcomma.append_spells hfirst

/-- The first element, and those behind it. -/
theorem spells_of_first {item : Rhs} (hitem : Forms g item P) {cs : List Char}
    {css : List (List Char)} (hcs : Derives g item cs)
    (hcss : ∀ ds ∈ css, Derives g (element item) ds) :
    ∃ vs, (∀ v ∈ vs, P v) ∧ vs.length = css.length + 1 ∧
      Spells (cs ++ css.flatten) (elemToks vs).tail := by
  obtain ⟨v, hv, hvalue⟩ := hitem cs hcs
  obtain ⟨vs, hvs, hlength, hspells, hstops⟩ := spells_of_elements hspace hitem hcss
  refine ⟨v :: vs, List.forall_mem_cons.mpr ⟨hv, hvs⟩, congrArg (· + 1) hlength, ?_⟩
  exact hvalue.append hstops hspells

omit hspace in
/-- What is between the brackets, in them. -/
theorem spells_brackets {cs : List Char} {vs : List Value} (h : Spells cs (elemToks vs).tail) :
    Spells ('[' :: ' ' :: (cs ++ [' ', ']'])) (Value.arr vs).toks := by
  have hclose := h.space.append (Marks.tok (t := .rbrack) rfl)
  have := (Marks.tok (t := .lbrack) rfl).append (Marks.space.append hclose)
  simpa [Value.toks, Tok.text] using this.spells

theorem Forms.array {item : Rhs} (hitem : Forms g item P) :
    Forms g (array item) fun v => ∃ vs, v = .arr vs ∧ ∀ x ∈ vs, P x := by
  intro cs hcs
  obtain ⟨cs₁, rfl, h₁⟩ := derives_lit_cons_iff.mp hcs
  obtain ⟨cs₂, rfl, h₂⟩ := (derives_space_cons_iff hspace).mp h₁
  obtain ⟨inner, cs₃, rfl, hinner, h₃⟩ := derives_cons_iff.mp h₂
  obtain ⟨cs₄, rfl, h₄⟩ := (derives_space_cons_iff hspace).mp h₃
  obtain ⟨cs₅, rfl, h₅⟩ := derives_lit_cons_iff.mp h₄
  obtain rfl := derives_nil_iff.mp h₅
  rcases derives_opt_iff.mp hinner with rfl | hinner
  · exact ⟨.arr [], ⟨[], rfl, by simp⟩, spells_brackets Marks.nil.spells⟩
  · obtain ⟨cs, ds, rfl, hfirst, hrest⟩ := derives_cons_iff.mp hinner
    obtain ⟨behind, es, rfl, hbehind, hes⟩ := derives_cons_iff.mp hrest
    obtain rfl := derives_nil_iff.mp hes
    obtain ⟨css, rfl, hcss, -⟩ := derives_rep_iff.mp hbehind
    obtain ⟨vs, hvs, -, hspells⟩ := spells_of_first hspace hitem hfirst hcss
    rw [List.append_nil]
    exact ⟨.arr vs, ⟨vs, rfl, hvs⟩, spells_brackets hspells⟩

theorem Forms.arrayOfMany {item : Rhs} (hitem : Forms g item P) :
    Forms g (arrayOfMany item) fun v => ∃ vs, v = .arr vs ∧ 2 ≤ vs.length ∧ ∀ x ∈ vs, P x := by
  intro cs hcs
  obtain ⟨cs₁, rfl, h₁⟩ := derives_lit_cons_iff.mp hcs
  obtain ⟨cs₂, rfl, h₂⟩ := (derives_space_cons_iff hspace).mp h₁
  obtain ⟨first, cs₃, rfl, hfirst, h₃⟩ := derives_cons_iff.mp h₂
  obtain ⟨behind, cs₄, rfl, hrest, h₄⟩ := derives_cons_iff.mp h₃
  obtain ⟨cs₅, rfl, h₅⟩ := (derives_space_cons_iff hspace).mp h₄
  obtain ⟨cs₆, rfl, h₆⟩ := derives_lit_cons_iff.mp h₅
  obtain rfl := derives_nil_iff.mp h₆
  obtain ⟨css, rfl, hcss, hmany, -⟩ := derives_rep_iff.mp hrest
  obtain ⟨vs, hvs, hlength, hspells⟩ := spells_of_first hspace hitem hfirst hcss
  refine ⟨.arr vs, ⟨vs, rfl, by omega, hvs⟩, ?_⟩
  have := spells_brackets hspells
  rwa [List.append_assoc] at this

end Rules

end Gbnf

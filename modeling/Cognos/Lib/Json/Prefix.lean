/-
# `Cognos.Lib.Json.Prefix` — the text of an object cut short

A text is read to its end: nothing comes after the value but blanks.  The text of an object
or an array ends with its closing bracket, so what is left when it is cut short is no JSON
text.

    lexGo_append          the machine on two pieces of a text
    parseText_cut         a piece of an object's text is no JSON text
-/
import Mathlib
import Cognos.Lib.Json.Value

namespace Json

/-! ## The machine on a piece -/

/-- The mode after the characters, and the tokens so far. -/
def lexPart : Mode → List Char → Option (Mode × List Tok)
  | m, [] => some (m, [])
  | m, c :: cs =>
      match step m c with
      | none => none
      | some (m', ts) => (lexPart m' cs).map fun r => (r.1, ts ++ r.2)

theorem lexGo_append (m : Mode) (cs ds : List Char) :
    lexGo m (cs ++ ds) =
      (lexPart m cs).bind fun r => (lexGo r.1 ds).map (r.2 ++ ·) := by
  induction cs generalizing m with
  | nil =>
      show lexGo m ds = (lexGo m ds).map ([] ++ ·)
      cases lexGo m ds with
      | none => rfl
      | some ts => rfl
  | cons c cs ih =>
      rw [List.cons_append, lexGo, lexPart]
      cases step m c with
      | none => rfl
      | some r =>
          obtain ⟨m', ts⟩ := r
          dsimp only
          rw [ih]
          cases lexPart m' cs with
          | none => rfl
          | some r =>
              simp only [Option.map_some, Option.bind_some]
              cases lexGo r.1 ds with
              | none => rfl
              | some us => simp

theorem run_append (s : PState) (ts us : List Tok) :
    run s (ts ++ us) = (run s ts).bind fun r => run r us := by
  induction ts generalizing s with
  | nil => rfl
  | cons t ts ih =>
      rw [List.cons_append, run, run]
      cases pstep s t with
      | none => rfl
      | some r => exact ih r

/-! ## No token -/

theorem endTok_ne_nil {t? : Option Tok} {c : Char} {m : Mode} :
    endTok t? c ≠ some (m, []) := by
  unfold endTok
  split
  · intro h
    cases h
  · intro h
    cases h

/-- A character that gives no token leaves the machine inside of one. -/
theorem ne_idle_of_step {m m' : Mode} {c : Char} (hm : m ≠ .idle)
    (h : step m c = some (m', [])) : m' ≠ .idle := by
  rintro rfl
  cases m with
  | idle => exact hm rfl
  | str acc =>
      simp only [step] at h
      split_ifs at h
      · cases h
      · cases h
      · cases h
  | esc acc =>
      simp only [step] at h
      split_ifs at h with hu
      · cases h
      · obtain ⟨d, -, hd⟩ := Option.map_eq_some_iff.mp h
        cases hd
  | hex acc hi k v =>
      simp only [step] at h
      split at h
      · obtain ⟨m, hm', hidle⟩ := Option.map_eq_some_iff.mp h
        cases hidle
        unfold closeHex at hm'
        cases hi with
        | none =>
            dsimp only at hm'
            split_ifs at hm'
            · cases hm'
            · cases hm'
        | some high =>
            dsimp only at hm'
            split_ifs at hm'
            cases hm'
      · cases h
      · cases h
  | low acc hi backslash =>
      cases backslash with
      | false =>
          simp only [step] at h
          split_ifs at h
          cases h
      | true =>
          simp only [step] at h
          split_ifs at h
          cases h
  | num acc =>
      simp only [step] at h
      split_ifs at h
      · cases h
      · exact endTok_ne_nil h
  | word acc =>
      simp only [step] at h
      split_ifs at h
      · cases h
      · exact endTok_ne_nil h

theorem finish_ne_nil {m : Mode} (hm : m ≠ .idle) : finish m ≠ some [] := by
  cases m with
  | idle => exact absurd rfl hm
  | num acc =>
      intro h
      obtain ⟨t, -, ht⟩ := Option.map_eq_some_iff.mp h
      cases ht
  | word acc =>
      intro h
      obtain ⟨t, -, ht⟩ := Option.map_eq_some_iff.mp h
      cases ht
  | str | esc | hex | low =>
      intro h
      cases h

/-- Whoever is inside of a token has it to come. -/
theorem lexGo_ne_nil {m : Mode} (hm : m ≠ .idle) (cs : List Char) : lexGo m cs ≠ some [] := by
  induction cs generalizing m with
  | nil => exact finish_ne_nil hm
  | cons c cs ih =>
      rw [lexGo]
      cases hstep : step m c with
      | none =>
          intro h
          cases h
      | some r =>
          obtain ⟨m', ts⟩ := r
          intro h
          obtain ⟨us, hus, hnil⟩ := Option.map_eq_some_iff.mp h
          obtain ⟨rfl, rfl⟩ := List.append_eq_nil_iff.mp hnil
          exact ih (ne_idle_of_step hm hstep) hus

/-- A text without a token is blank. -/
theorem isSpace_of_lexGo {cs : List Char} (h : lexGo .idle cs = some []) :
    ∀ c ∈ cs, isSpace c = true := by
  induction cs with
  | nil => exact fun c hc => absurd hc List.not_mem_nil
  | cons c cs ih =>
      rw [lexGo] at h
      cases hstep : step .idle c with
      | none =>
          rw [hstep] at h
          cases h
      | some r =>
          obtain ⟨m, ts⟩ := r
          rw [hstep] at h
          obtain ⟨us, hus, hnil⟩ := Option.map_eq_some_iff.mp h
          obtain ⟨rfl, rfl⟩ := List.append_eq_nil_iff.mp hnil
          have hm : m = .idle := by
            by_contra hm
            exact lexGo_ne_nil hm cs hus
          subst hm
          have hspace : isSpace c = true := by
            have hstart : startTok c = some (.idle, []) := hstep
            unfold startTok at hstart
            cases hpunct : punct? c with
            | some t =>
                rw [hpunct] at hstart
                cases hstart
            | none =>
                rw [hpunct] at hstart
                dsimp only at hstart
                by_contra hspace
                rw [if_neg hspace] at hstart
                split_ifs at hstart
                · cases hstart
                · cases hstart
                · cases hstart
          exact List.forall_mem_cons.mpr ⟨hspace, ih hus⟩

/-! ## The reader at the end -/

theorem give_ne_start (v : Value) (k : List Frame) : give v k ≠ .val [] := by
  intro h
  cases k with
  | nil => cases h
  | cons f k => cases f <;> cases h

theorem openValue_ne_start (k : List Frame) (t : Tok) : openValue k t ≠ some (.val []) := by
  intro h
  cases t with
  | tru | fls | null | str | num => exact give_ne_start _ _ (Option.some.inj h)
  | lbrace | rbrace | lbrack | rbrack | colon | comma => cases h

/-- No token leads back to the start. -/
theorem pstep_ne_start (s : PState) (t : Tok) : pstep s t ≠ some (.val []) := by
  intro h
  unfold pstep at h
  split at h
  · exact openValue_ne_start _ _ h
  · exact give_ne_start _ _ (Option.some.inj h)
  · exact openValue_ne_start _ _ h
  · cases h
  · exact give_ne_start _ _ (Option.some.inj h)
  · exact give_ne_start _ _ (Option.some.inj h)
  · cases h
  · cases h
  · cases h
  · cases h
  · exact give_ne_start _ _ (Option.some.inj h)
  · cases h

theorem run_ne_start {s : PState} {ts : List Tok} (hts : ts ≠ []) : run s ts ≠ some (.val []) := by
  induction ts generalizing s with
  | nil => exact absurd rfl hts
  | cons t ts ih =>
      rw [run]
      cases hstep : pstep s t with
      | none =>
          intro h
          cases h
      | some r =>
          by_cases hnil : ts = []
          · subst hnil
            intro h
            exact pstep_ne_start s t (hstep.trans h)
          · exact ih hnil

theorem eq_nil_of_give {v w : Value} {k : List Frame} (h : give v k = .done w) : k = [] := by
  cases k with
  | nil => rfl
  | cons f k => cases f <;> cases h

/-- A number or a word is a whole text only by itself. -/
theorem eq_start_of_wordy {s : PState} {t : Tok} {w : Value} (ht : t.wordy = true)
    (h : pstep s t = some (.done w)) : s = .val [] := by
  have hopen : ∀ k, openValue k t = some (.done w) → k = [] := by
    intro k hk
    cases t with
    | tru | fls | null | num => exact eq_nil_of_give (Option.some.inj hk)
    | str | lbrace | rbrace | lbrack | rbrack | colon | comma => cases ht
  cases s with
  | val k => exact congrArg PState.val (hopen k h)
  | arrFirst k =>
      have hk : openValue (.inArr [] :: k) t = some (.done w) := by
        cases t with
        | rbrack => cases ht
        | lbrace | rbrace | lbrack | colon | comma | tru | fls | null | str | num => exact h
      cases hopen _ hk
  | arrNext | objFirst | key | colon | objNext | done =>
      cases t with
      | tru | fls | null | num => cases h
      | str | lbrace | rbrace | lbrack | rbrack | colon | comma => cases ht

/-- The end of a text adds nothing, or a number or a word. -/
theorem wordy_of_finish {m : Mode} {ts : List Tok} (h : finish m = some ts) :
    (m = .idle ∧ ts = []) ∨ ∃ t, ts = [t] ∧ t.wordy = true := by
  cases m with
  | idle => exact Or.inl ⟨rfl, (Option.some.inj h).symm⟩
  | num acc =>
      obtain ⟨t, ht, rfl⟩ := Option.map_eq_some_iff.mp h
      obtain ⟨n, -, rfl⟩ := Option.map_eq_some_iff.mp ht
      exact Or.inr ⟨_, rfl, rfl⟩
  | word acc =>
      obtain ⟨t, ht, rfl⟩ := Option.map_eq_some_iff.mp h
      unfold closeWord at ht
      split_ifs at ht
      · cases ht
        exact Or.inr ⟨_, rfl, rfl⟩
      · cases ht
        exact Or.inr ⟨_, rfl, rfl⟩
      · cases ht
        exact Or.inr ⟨_, rfl, rfl⟩
  | str | esc | hex | low => cases h

/-! ## A piece of a text -/

theorem parseText_eq_some_iff {s : String} {v : Value} :
    parseText s = some v ↔ ∃ ts, lex s.toList = some ts ∧ run (.val []) ts = some (.done v) := by
  unfold parseText parse
  cases lex s.toList with
  | none => simp
  | some ts =>
      simp only [Option.some.injEq, exists_eq_left']
      cases run (.val []) ts with
      | none => simp
      | some r => cases r <;> simp

/-- If a text that begins with a bracket goes on after a whole text, it goes on with blanks. -/
theorem isSpace_of_parseText {p q : String} {v w : Value} (hp : parseText p = some w)
    (hpq : parseText (p ++ q) = some v) (hopen : ∃ cs, p.toList = '{' :: cs) :
    ∀ c ∈ q.toList, isSpace c = true := by
  obtain ⟨ts, hlex, hrun⟩ := parseText_eq_some_iff.mp hp
  obtain ⟨us, hlex', hrun'⟩ := parseText_eq_some_iff.mp hpq
  have hpart : lex p.toList = (lexPart .idle p.toList).bind fun r =>
      (finish r.1).map (r.2 ++ ·) := by
    have happend := lexGo_append .idle p.toList []
    rw [List.append_nil] at happend
    exact happend
  rw [hpart] at hlex
  rw [String.toList_append, lex, lexGo_append] at hlex'
  obtain ⟨⟨m, front⟩, hfront, hend⟩ := Option.bind_eq_some_iff.mp hlex
  rw [hfront, Option.bind_some] at hlex'
  obtain ⟨last, hlast, rfl⟩ := Option.map_eq_some_iff.mp hend
  obtain ⟨rest, hrest, rfl⟩ := Option.map_eq_some_iff.mp hlex'
  dsimp only at hlast hrest hrun hrun'
  rcases wordy_of_finish hlast with ⟨rfl, rfl⟩ | ⟨t, rfl, ht⟩
  · rw [List.append_nil] at hrun
    rw [run_append, hrun, Option.bind_some] at hrun'
    have hnil : rest = [] := by
      cases rest with
      | nil => rfl
      | cons t rest => cases hrun'
    rw [hnil] at hrest
    exact isSpace_of_lexGo hrest
  · -- the word would be the whole text, but the bracket came before it
    exfalso
    obtain ⟨cs, hcs⟩ := hopen
    have hne : front ≠ [] := by
      rintro rfl
      rw [hcs, lexPart] at hfront
      obtain ⟨r, -, hr⟩ := Option.map_eq_some_iff.mp hfront
      cases hr
    rw [run_append] at hrun
    obtain ⟨s, hs, hstep⟩ := Option.bind_eq_some_iff.mp hrun
    have hpstep : pstep s t = some (.done w) := by
      rw [run] at hstep
      cases hp' : pstep s t with
      | none =>
          rw [hp'] at hstep
          cases hstep
      | some r =>
          rw [hp'] at hstep
          exact hstep
    rw [eq_start_of_wordy ht hpstep] at hs
    exact run_ne_start hne hs

/-- An object's text, bracket to bracket. -/
theorem print_obj (fs : List (String × Value)) :
    ∃ body, (Value.obj fs).print.toList = '{' :: (body ++ ['}']) := by
  refine ⟨(fieldToks fs).tail.flatMap Tok.text, ?_⟩
  rw [Value.print, String.toList_ofList, Value.toks, List.flatMap_cons, List.flatMap_append]
  rfl

/-- What is left of an object's text that is cut short is no JSON text. -/
theorem parseText_cut {fs : List (String × Value)} {p q : List Char}
    (h : (Value.obj fs).print.toList = p ++ q) (hq : q ≠ []) :
    parseText (String.ofList p) = none := by
  obtain ⟨body, hbody⟩ := print_obj fs
  cases hp : parseText (String.ofList p) with
  | none => rfl
  | some w =>
      exfalso
      have hwhole : parseText (String.ofList p ++ String.ofList q) = some (.obj fs) := by
        rw [← String.ofList_append, ← h, String.ofList_toList]
        exact parseText_print _
      have hopen : ∃ cs, (String.ofList p).toList = '{' :: cs := by
        cases p with
        | nil =>
            obtain ⟨ts, hlex, hrun⟩ := parseText_eq_some_iff.mp hp
            cases hlex
            cases hrun
        | cons c p =>
            rw [hbody] at h
            exact ⟨p, by rw [String.toList_ofList, (List.cons.inj h).1]⟩
      have hblank := isSpace_of_parseText hp hwhole hopen
      have hlast : q.getLast? = some '}' := by
        have hall : (p ++ q).getLast? = some '}' := by
          rw [← h, hbody, ← List.cons_append]
          exact List.getLast?_concat
        rw [List.getLast?_append_of_ne_nil _ hq] at hall
        exact hall
      have hspace := hblank '}' (by
        rw [String.toList_ofList]
        exact List.mem_of_getLast? hlast)
      exact absurd hspace (by decide)

end Json

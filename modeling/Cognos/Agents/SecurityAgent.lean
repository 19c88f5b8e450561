/-
# `Cognos.Agents.SecurityAgent` — what the security agent looks at

`agents/security.py`: an alert is denied when one of five patterns is found in its text, and a
package is trusted by the name of its source.  The coordinator sends the security agent the
schema of the intent itself, while the agent looks for the text of an alert in the members
`action` and `schema` of what it is sent.

Which characters besides the ASCII ones belong to words, and what a value that is no string looks
like in a text, are parameters.

    dangerous_iff     what the patterns find
    approved_iff      an alert is approved exactly when they find nothing, whatever else it says
    routed_approved   of an intent the coordinator has it look at, it sees nothing
    trusted_unsigned  and a package it trusts exactly when no backend has signed the intent
-/
import Mathlib
import Cognos.Agents.Coordinator
import Cognos.IntentEngine.HttpBackend
import Cognos.Lib.PyLines
import Cognos.Lib.Regex

namespace Agents

open Py (Value Fields Exc get)
open Regex (Expr search lit plus opt)

/-! ## Patterns -/

/-- `\w` -/
def isWord (unicodeWord : Char → Bool) (c : Char) : Bool :=
  c.isAlphanum || c == '_' || (127 < c.toNat && unicodeWord c)

namespace SecurityAgent

/-- `\s+` -/
def gap : Expr := plus (.cls PyText.isSpace)

/-- `.*` -/
def anything : Expr := .star (.cls (· != '\n'))

def rmRfRoot : Expr :=
  .seq (lit "rm".toList) (.seq gap (.seq
    (opt (.seq (lit "-".toList) (.seq (plus (.cls ("rfRF".toList.contains ·))) gap)))
    (lit "/".toList)))

def chmod777 : Expr := .seq (lit "chmod".toList) (.seq gap (lit "777".toList))

def curlPipeBash : Expr :=
  .seq (lit "curl".toList) (.seq anything (.seq (lit "|".toList) (.seq anything
    (.alt (lit "bash".toList) (lit "sh".toList)))))

/-- `.*\$(?:INPUT|1|QUERY)` -/
def inputArgs : Expr :=
  .seq anything (.seq (lit "$".toList)
    (.alt (lit "INPUT".toList) (.alt (lit "1".toList) (lit "QUERY".toList))))

def evalInput : Expr := .seq .boundary (.seq (lit "eval".toList) (.seq .boundary inputArgs))

def ddOverwrite : Expr :=
  .seq (lit "dd".toList) (.seq gap (.seq anything (lit "of=/dev/".toList)))

/-- Patterns that indicate potentially dangerous operations. -/
def dangerousPatterns : List (String × Expr) :=
  [("rm_rf_root", rmRfRoot), ("chmod_777", chmod777), ("curl_pipe_bash", curlPipeBash),
    ("eval_input", evalInput), ("dd_overwrite", ddOverwrite)]

section Agent

variable (unicodeWord : Char → Bool) (showValue : Value → String)

/-- The names of the patterns found. -/
def found (text : String) : List String :=
  (dangerousPatterns.filter fun p => search (isWord unicodeWord) p.2 text.toList).map Prod.fst

/-- A value in an f-string. -/
def format : Value → String
  | .str s => s
  | v => showValue v

/-- The text that is searched: it has to be a string. -/
def actionText (payload : Fields) : Value :=
  let action := get payload "action" (.str "")
  match get payload "schema" (.dict []) with
  | .dict schema => .str (format showValue action ++ " " ++
      format showValue (get schema "goal" (.str "")) ++ " " ++
      format showValue (get schema "utterance" (.str "")))
  | _ => action

/-- A member of the schema in the payload, if that is a dictionary. -/
def schemaMember (payload : Fields) (key : String) (default : Value) : Value :=
  match get payload "schema" (.dict []) with
  | .dict schema => get schema key default
  | _ => default

/-- The reply to an alert. -/
def checkResult (payload : Fields) (approved : Bool) (riskLevel : String)
    (findings : List String) : Fields :=
  let confidence : Value := .float (if approved then 0.9 else 0.95)
  let findings : Value := .list (findings.map .str)
  [("approved", .bool approved), ("risk_level", .str riskLevel), ("findings", findings),
    ("hal_verdict", .str (if approved then "granted" else "denied")), ("confidence", confidence),
    ("actions", .list [.dict [("action", .str "security.check_complete"),
      ("target", .str ("agent." ++ format showValue (get payload "agent" (.str "unknown")))),
      ("agent", .str "security"), ("confidence", confidence), ("reversible", .bool true),
      ("hal_pre_score", .float (if riskLevel = "none" then 0.1 else 0.7)),
      ("parameters", .dict [("findings", findings)])]])]

/-- The risk after the patterns, and after the question whether a gate is required. -/
def riskLevel (dangers : List String) (requiresHal : Bool) : String :=
  let level := if dangers = [] then "none" else "high"
  if requiresHal && level == "none" then "low" else level

/-- What is noted of the capabilities that an alert requires. -/
def capsFinding (requiredCaps : Value) : Except Exc (List String) :=
  if requiredCaps.truthy then
    (Py.join ", " requiredCaps).map fun caps => ["Required capabilities: " ++ caps]
  else .ok []

/-- Run security checks on the proposed action. -/
def handleSecurityAlert (payload : Fields) : Except Exc Fields :=
  match actionText showValue payload with
  | .str text =>
      let dangers := found unicodeWord text
      let requiresHal := (schemaMember payload "requires_hal" (.bool false)).truthy
      let level := riskLevel dangers requiresHal
      let findings :=
        dangers.map (fun name => "DANGEROUS_PATTERN: " ++ name ++ " matched in action") ++
          if level = "low" then ["Action requires HAL gating — forwarding to gate"] else []
      (capsFinding (schemaMember payload "requires" (.list []))).map fun caps =>
        checkResult showValue payload (decide (level ∉ ["high", "critical"])) level
          (findings ++ caps)
  | _ => .error Py.typeError

def trustedSources : List String := ["apt", "flatpak", "appimage"]

/-- `source.lower().split(".")[0] if source else "unknown"` -/
def sourceType (source : Value) : Except Exc String :=
  if source.truthy then
    match source with
    | .str s => .ok (String.ofList ((Text.toLowercase s).toList.takeWhile (· ≠ '.')))
    | _ => .error Py.attributeError
  else .ok "unknown"

/-- The reply about a package, by the type of its source. -/
def trustReply (package source : Value) (sourceType : String) : Fields :=
  if sourceType ∈ trustedSources ∧ package.truthy = true then
    [("approved", .bool true), ("risk_level", .str "low"),
      ("findings", .list [.str ("Package '" ++ format showValue package ++
        "' from trusted source '" ++ sourceType ++ "'")]),
      ("confidence", .float 0.8)]
  else
    [("approved", .bool false), ("risk_level", .str "medium"),
      ("findings", .list [.str ("Package '" ++ format showValue package ++
        "' from untrusted source '" ++ format showValue source ++ "'"),
        .str "Manual review recommended before install"]),
      ("confidence", .float 0.6)]

/-- Check whether a package install request is trustworthy. -/
def checkInstallTrust (payload : Fields) : Except Exc Fields :=
  let package := get payload "package" (.str "")
  let source := get payload "source" (.str "unknown")
  (sourceType source).map (trustReply showValue package source)

/-- Route incoming messages by type. -/
def handleMessage (msgType : String) (payload : Fields) : Except Exc Fields :=
  if msgType = "SECURITY_ALERT" then handleSecurityAlert unicodeWord showValue payload
  else if msgType = "INSTALL_TRUST" then checkInstallTrust showValue payload
  else .ok [("status", .str "ignored"), ("reason", .str ("unknown type: " ++ msgType))]

end Agent

/-! ## What the patterns find -/

/-- White space, and some of it. -/
def Gap (w : List Char) : Prop := w ≠ [] ∧ ∀ c ∈ w, PyText.isSpace c = true

/-- No end of a line. -/
def OnLine (w : List Char) : Prop := '\n' ∉ w

/-- Options of `rm` out of `rfRF`, or none. -/
def RmFlags (w : List Char) : Prop :=
  w = [] ∨ ∃ letters space, w = '-' :: letters ++ space ∧ letters ≠ [] ∧
    (∀ c ∈ letters, c ∈ "rfRF".toList) ∧ Gap space

def RemovesRoot (text : List Char) : Prop :=
  ∃ before space flags after, Gap space ∧ RmFlags flags ∧
    text = before ++ "rm".toList ++ space ++ flags ++ "/".toList ++ after

def OpensToAll (text : List Char) : Prop :=
  ∃ before space after, Gap space ∧
    text = before ++ "chmod".toList ++ space ++ "777".toList ++ after

def PipesToShell (text : List Char) : Prop :=
  ∃ before args mid shell after, OnLine args ∧ OnLine mid ∧
    (shell = "bash".toList ∨ shell = "sh".toList) ∧
    text = before ++ "curl".toList ++ args ++ "|".toList ++ mid ++ shell ++ after

/-- `eval` has to be a word of its own. -/
def EvaluatesInput (unicodeWord : Char → Bool) (text : List Char) : Prop :=
  ∃ before args name after, OnLine args ∧
    (name = "INPUT".toList ∨ name = "1".toList ∨ name = "QUERY".toList) ∧
    before.getLast?.any (isWord unicodeWord) = false ∧
    (args ++ "$".toList).head?.any (isWord unicodeWord) = false ∧
    text = before ++ "eval".toList ++ args ++ "$".toList ++ name ++ after

def OverwritesDevice (text : List Char) : Prop :=
  ∃ before space args after, Gap space ∧ OnLine args ∧
    text = before ++ "dd".toList ++ space ++ args ++ "of=/dev/".toList ++ after

/-- What the agent denies. -/
def Dangerous (unicodeWord : Char → Bool) (text : List Char) : Prop :=
  RemovesRoot text ∨ OpensToAll text ∨ PipesToShell text ∨ EvaluatesInput unicodeWord text ∨
    OverwritesDevice text

section Patterns

variable {unicodeWord : Char → Bool} {text : List Char}

theorem lang_gap {w : List Char} : Regex.Lang gap w ↔ Gap w := Regex.lang_cls_plus

theorem lang_anything {w : List Char} : Regex.Lang anything w ↔ OnLine w := by
  rw [anything, Regex.lang_cls_star]
  simp only [bne_iff_ne, OnLine]
  exact ⟨fun h hmem => h _ hmem rfl, fun h c hc heq => h (heq ▸ hc)⟩

theorem plain_gap : Regex.Plain gap := ⟨trivial, trivial⟩

theorem search_rmRfRoot :
    search (isWord unicodeWord) rmRfRoot text = true ↔ RemovesRoot text := by
  have hflags : ∀ w, Regex.Lang (opt (.seq (lit "-".toList)
      (.seq (plus (.cls ("rfRF".toList.contains ·))) gap))) w ↔ RmFlags w := by
    intro w
    rw [Regex.lang_opt, Regex.lang_lit_seq, RmFlags]
    simp only [Regex.lang_seq, Regex.lang_cls_plus, lang_gap, List.contains_iff_mem]
    refine or_congr_right ⟨?_, ?_⟩
    · rintro ⟨v, rfl, letters, space, rfl, ⟨hne, hletters⟩, hspace⟩
      exact ⟨letters, space, rfl, hne, hletters, hspace⟩
    · rintro ⟨letters, space, rfl, hne, hletters, hspace⟩
      exact ⟨letters ++ space, rfl, letters, space, rfl, ⟨hne, hletters⟩, hspace⟩
  have hplain : Regex.Plain rmRfRoot :=
    ⟨Regex.plain_lit _, plain_gap,
      ⟨⟨Regex.plain_lit _, ⟨trivial, trivial⟩, plain_gap⟩, trivial⟩, Regex.plain_lit _⟩
  rw [Regex.search_iff_lang hplain]
  simp only [rmRfRoot, Regex.lang_lit_seq, Regex.lang_seq (r := gap),
    Regex.lang_seq (s := lit _), hflags, lang_gap, Regex.lang_lit]
  constructor
  · rintro ⟨before, w, after, rfl, v, rfl, space, u, rfl, hspace, flags, _, rfl, hflags, rfl⟩
    exact ⟨before, space, flags, after, hspace, hflags, by simp⟩
  · rintro ⟨before, space, flags, after, hspace, hflags, rfl⟩
    exact ⟨before, "rm".toList ++ (space ++ (flags ++ "/".toList)), after, by simp, _, rfl, space, _,
      rfl, hspace, flags, _, rfl, hflags, rfl⟩

theorem search_chmod777 :
    search (isWord unicodeWord) chmod777 text = true ↔ OpensToAll text := by
  have hplain : Regex.Plain chmod777 := ⟨Regex.plain_lit _, plain_gap, Regex.plain_lit _⟩
  rw [Regex.search_iff_lang hplain]
  simp only [chmod777, Regex.lang_lit_seq, Regex.lang_seq (r := gap), lang_gap, Regex.lang_lit]
  constructor
  · rintro ⟨before, w, after, rfl, v, rfl, space, _, rfl, hspace, rfl⟩
    exact ⟨before, space, after, hspace, by simp⟩
  · rintro ⟨before, space, after, hspace, rfl⟩
    exact ⟨before, "chmod".toList ++ (space ++ "777".toList), after, by simp, _, rfl, space, _, rfl,
      hspace, rfl⟩

theorem search_curlPipeBash :
    search (isWord unicodeWord) curlPipeBash text = true ↔ PipesToShell text := by
  have hplain : Regex.Plain curlPipeBash :=
    ⟨Regex.plain_lit _, trivial, Regex.plain_lit _, trivial, Regex.plain_lit _, Regex.plain_lit _⟩
  rw [Regex.search_iff_lang hplain]
  simp only [curlPipeBash, Regex.lang_lit_seq, Regex.lang_seq (r := anything), lang_anything,
    Regex.lang_alt, Regex.lang_lit]
  constructor
  · rintro ⟨before, w, after, rfl, _, rfl, args, _, rfl, hargs, _, rfl, mid, shell, rfl, hmid,
      hshell⟩
    exact ⟨before, args, mid, shell, after, hargs, hmid, hshell, by simp⟩
  · rintro ⟨before, args, mid, shell, after, hargs, hmid, hshell, rfl⟩
    exact ⟨before, "curl".toList ++ (args ++ ("|".toList ++ (mid ++ shell))), after, by simp, _, rfl,
      args, _, rfl, hargs, _, rfl, mid, shell, rfl, hmid, hshell⟩

theorem search_ddOverwrite :
    search (isWord unicodeWord) ddOverwrite text = true ↔ OverwritesDevice text := by
  have hplain : Regex.Plain ddOverwrite :=
    ⟨Regex.plain_lit _, plain_gap, trivial, Regex.plain_lit _⟩
  rw [Regex.search_iff_lang hplain]
  simp only [ddOverwrite, Regex.lang_lit_seq, Regex.lang_seq (r := gap),
    Regex.lang_seq (r := anything), lang_gap, lang_anything, Regex.lang_lit]
  constructor
  · rintro ⟨before, w, after, rfl, _, rfl, space, _, rfl, hspace, args, _, rfl, hargs, rfl⟩
    exact ⟨before, space, args, after, hspace, hargs, by simp⟩
  · rintro ⟨before, space, args, after, hspace, hargs, rfl⟩
    exact ⟨before, "dd".toList ++ (space ++ (args ++ "of=/dev/".toList)), after, by simp, _, rfl,
      space, _, rfl, hspace, args, _, rfl, hargs, rfl⟩

/-- Before a character of a word, a boundary is where there is none before it. -/
theorem atBoundary_left {word : Char → Bool} {c : Char} (hc : word c = true)
    (before after : List Char) :
    Regex.atBoundary word (before.reverse, c :: after) = true ↔
      before.getLast?.any word = false := by
  rw [Regex.atBoundary, List.head?_reverse, List.head?_cons, Option.any_some, hc]
  cases before.getLast?.any word <;> decide

/-- And after one, where there is none after it. -/
theorem atBoundary_right {word : Char → Bool} {c : Char} (hc : word c = true)
    (before after : List Char) :
    Regex.atBoundary word (c :: before, after) = true ↔ after.head?.any word = false := by
  rw [Regex.atBoundary, List.head?_cons, Option.any_some, hc]
  cases after.head?.any word <;> decide

theorem lang_inputArgs {w : List Char} : Regex.Lang inputArgs w ↔
    ∃ args name, w = args ++ ("$".toList ++ name) ∧ OnLine args ∧
      (name = "INPUT".toList ∨ name = "1".toList ∨ name = "QUERY".toList) := by
  simp only [inputArgs, Regex.lang_seq (r := anything), Regex.lang_lit_seq, lang_anything,
    Regex.lang_alt, Regex.lang_lit]
  constructor
  · rintro ⟨args, _, rfl, hargs, name, rfl, hname⟩
    exact ⟨args, name, rfl, hargs, hname⟩
  · rintro ⟨args, name, rfl, hargs, hname⟩
    exact ⟨args, _, rfl, hargs, name, rfl, hname⟩

theorem search_evalInput :
    search (isWord unicodeWord) evalInput text = true ↔ EvaluatesInput unicodeWord text := by
  have he : isWord unicodeWord 'e' = true := rfl
  have hl : isWord unicodeWord 'l' = true := rfl
  have hplain : Regex.Plain inputArgs :=
    ⟨trivial, Regex.plain_lit _, Regex.plain_lit _, Regex.plain_lit _, Regex.plain_lit _⟩
  have hhead : ∀ args rest : List Char,
      (args ++ ("$".toList ++ rest)).head? = (args ++ "$".toList).head? := by
    intro args rest
    cases args <;> rfl
  rw [Regex.search_iff]
  constructor
  · rintro ⟨before, w, after, rfl, h⟩
    obtain ⟨_, hfirst, h⟩ := Regex.matches_seq.mp h
    obtain ⟨hleft, rfl⟩ := Regex.matches_boundary.mp hfirst
    obtain ⟨y, heval, h⟩ := Regex.matches_seq.mp h
    obtain ⟨hw, hy⟩ := Regex.matches_lit.mp heval
    obtain ⟨_, hsecond, h⟩ := Regex.matches_seq.mp h
    obtain ⟨hright, rfl⟩ := Regex.matches_boundary.mp hsecond
    obtain ⟨v, hv, hrest, -⟩ := (Regex.matches_iff_lang hplain).mp h
    obtain ⟨args, name, rfl, hargs, hname⟩ := lang_inputArgs.mp hv
    have hw' : w ++ after = "eval".toList ++ y.2 := hw
    rw [hw'] at hleft
    have hright' : Regex.atBoundary (isWord unicodeWord)
        ('l' :: ("ave".toList ++ before.reverse), y.2) = true := by
      rw [show ('l' :: ("ave".toList ++ before.reverse), y.2) = y from Prod.ext hy.symm rfl]
      exact hright
    have hargsHead := (atBoundary_right hl _ _).mp hright'
    have hrest' : y.2 = args ++ ("$".toList ++ (name ++ after)) := by
      rw [hrest]
      simp
    rw [hrest', hhead] at hargsHead
    refine ⟨before, args, name, after, hargs, hname, (atBoundary_left he _ _).mp hleft, hargsHead,
      ?_⟩
    rw [List.append_assoc, hw', hrest']
    simp
  · rintro ⟨before, args, name, after, hargs, hname, hleft, hright, rfl⟩
    refine ⟨before, "eval".toList ++ (args ++ ("$".toList ++ name)), after, by simp, ?_⟩
    refine Regex.matches_seq.mpr ⟨_, Regex.matches_boundary.mpr ⟨?_, rfl⟩,
      Regex.matches_seq.mpr ⟨("eval".toList.reverse ++ before.reverse,
        args ++ ("$".toList ++ name) ++ after), Regex.matches_lit.mpr ⟨?_, rfl⟩,
        Regex.matches_seq.mpr ⟨_, Regex.matches_boundary.mpr ⟨?_, rfl⟩,
          (Regex.matches_iff_lang hplain).mpr
            ⟨_, lang_inputArgs.mpr ⟨args, name, rfl, hargs, hname⟩, rfl, ?_⟩⟩⟩⟩
    · exact (atBoundary_left he before _).mpr hleft
    · exact List.append_assoc _ _ _
    · refine (atBoundary_right hl ("ave".toList ++ before.reverse) _).mpr ?_
      rw [List.append_assoc, List.append_assoc, hhead]
      exact hright
    · simp

/-- The patterns find what is dangerous. -/
theorem dangerous_iff :
    (∃ p ∈ dangerousPatterns, search (isWord unicodeWord) p.2 text = true) ↔
      Dangerous unicodeWord text := by
  simp only [dangerousPatterns, List.mem_cons, List.not_mem_nil, or_false, exists_eq_or_imp,
    exists_eq_left, search_rmRfRoot, search_chmod777, search_curlPipeBash, search_evalInput,
    search_ddOverwrite, Dangerous]

theorem found_eq_nil {text : String} :
    found unicodeWord text = [] ↔ ¬ Dangerous unicodeWord text.toList := by
  rw [found, List.map_eq_nil_iff, List.filter_eq_nil_iff, ← dangerous_iff]
  exact ⟨fun h ⟨p, hp, hsearch⟩ => h p hp hsearch, fun h p hp hsearch => h ⟨p, hp, hsearch⟩⟩

end Patterns

/-! ## Approvals -/

section Alerts

variable {unicodeWord : Char → Bool} {showValue : Value → String}

theorem riskLevel_approved (dangers : List String) (requiresHal : Bool) :
    decide (riskLevel dangers requiresHal ∉ ["high", "critical"]) = decide (dangers = []) := by
  cases dangers with
  | nil => cases requiresHal <;> rfl
  | cons name names => cases requiresHal <;> rfl

/-- A reply to an alert approves of it exactly when no pattern was found. -/
theorem exists_checkResult {payload reply : Fields}
    (h : handleSecurityAlert unicodeWord showValue payload = .ok reply) :
    ∃ text level findings, actionText showValue payload = .str text ∧
      reply = checkResult showValue payload (decide (found unicodeWord text = [])) level
        findings := by
  rw [handleSecurityAlert] at h
  cases hvalue : actionText showValue payload with
  | str text =>
      simp only [hvalue, riskLevel_approved] at h
      cases hcaps : capsFinding (schemaMember payload "requires" (.list [])) with
      | error e =>
          rw [hcaps] at h
          cases h
      | ok caps =>
          rw [hcaps] at h
          exact ⟨text, _, _, rfl, (Except.ok.inj h).symm⟩
  | none | bool | int | float | list | dict | record | other =>
      rw [hvalue] at h
      cases h

/-- The agent answers an alert, if at all, by what is dangerous in its text: what else the alert
asks for, the capabilities it requires and who sends it do not matter for the verdict. -/
theorem approved_iff {payload reply : Fields}
    (h : handleMessage unicodeWord showValue "SECURITY_ALERT" payload = .ok reply) :
    ∃ text, actionText showValue payload = .str text ∧
      (reply.lookup "approved" = some (.bool true) ↔ ¬ Dangerous unicodeWord text.toList) ∧
      (reply.lookup "approved" = some (.bool false) ↔ Dangerous unicodeWord text.toList) ∧
      (reply.lookup "hal_verdict" = some (.str "granted") ↔
        ¬ Dangerous unicodeWord text.toList) := by
  rw [handleMessage, if_pos rfl] at h
  obtain ⟨text, riskLevel, findings, htext, rfl⟩ := exists_checkResult h
  refine ⟨text, htext, ?_⟩
  by_cases hdangerous : Dangerous unicodeWord text.toList
  · have hfound : found unicodeWord text ≠ [] := fun hnil => found_eq_nil.mp hnil hdangerous
    rw [decide_eq_false hfound]
    simp [checkResult, hdangerous, List.lookup]
  · rw [decide_eq_true (found_eq_nil.mpr hdangerous)]
    simp [checkResult, hdangerous, List.lookup]

end Alerts

/-- A script piped to a shell. -/
def pipedScript : Fields :=
  [("action", .str "curl setup | sh"), ("agent", .str "planner")]

theorem approved_iff_pipedScript : ∃ reply : Fields,
    handleMessage (fun _ => false) (fun _ => "") "SECURITY_ALERT" pipedScript = .ok reply ∧
      reply.lookup "approved" = some (.bool false) := by
  have hreply : handleMessage (fun _ => false) (fun _ => "") "SECURITY_ALERT" pipedScript =
      .ok _ := rfl
  obtain ⟨text, htext, -, hdenied, -⟩ := approved_iff hreply
  obtain rfl : "curl setup | sh  " = text := Value.str.inj htext
  have hline : OnLine " setup ".toList ∧ OnLine " ".toList := by
    simp [OnLine]
  refine ⟨_, hreply, hdenied.mpr (Or.inr (Or.inr (Or.inl ?_)))⟩
  exact ⟨[], " setup ".toList, " ".toList, "sh".toList, "  ".toList, hline.1, hline.2, Or.inr rfl,
    rfl⟩

/-! ## What the coordinator has it look at -/

/-- What awaiting the agent's answer gives. -/
def awaited : Except Exc Fields → Except CallError Value
  | .ok reply => .ok (.dict reply)
  | .error e => .error (.exception e)

section Routed

variable (unicodeWord : Char → Bool) (showValue : Value → String)

/-- Two spaces hold nothing dangerous. -/
theorem found_blank : found unicodeWord "  " = [] := rfl

/-- The intent engine's schemas have neither of the members that the agent looks for. -/
theorem lookup_schema (printF32 : Float32 → Json.NumLit) (s : IntentEngine.IntentSchema) :
    ∃ fields, s.json printF32 = .obj fields ∧ fields.lookup "action" = none ∧
      fields.lookup "schema" = none := by
  refine ⟨_, rfl, ?_, ?_⟩
  · cases s.source <;> rfl
  · cases s.source <;> rfl

/-- An intent that the coordinator routes to the security agent is approved, with no findings,
whatever it is: the agent finds neither an action nor a schema in it, as the coordinator sends
the schema itself. -/
theorem routed_approved (s : Coordinator) (first second : Meeting) {goal : String}
    (hgoal : goal ∈ Coordinator.securityGoals) {schema : Fields}
    (haction : schema.lookup "action" = none) (hschema : schema.lookup "schema" = none)
    (hlocal : first.localAgent = some ⟨false, true⟩)
    (hanswer : first.localResult =
      awaited (handleMessage unicodeWord showValue "SECURITY_ALERT" schema)) :
    ∃ reply, (s.routePrimary first second goal schema).1 = some reply ∧
      reply.lookup "approved" = some (.bool true) ∧
      reply.lookup "hal_verdict" = some (.str "granted") ∧
      reply.lookup "risk_level" = some (.str "none") ∧
      reply.lookup "findings" = some (.list []) := by
  have hroute : s.routePrimary first second goal schema =
      s.callAgent first "security" "SECURITY_ALERT" schema true := by
    have hothers : goal ∉ Coordinator.openGoals ∧ goal ∉ Coordinator.codingGoals := by
      rcases List.mem_cons.mp hgoal with rfl | hgoal
      · decide
      · rcases List.mem_pair.mp hgoal with rfl | rfl
        · decide
        · decide
    rw [Coordinator.routePrimary, if_neg hothers.1, if_neg hothers.2, if_pos hgoal]
  have hpayload : get schema "schema" (.dict []) = .dict [] := by
    rw [Py.get, hschema]
    rfl
  have haction' : get schema "action" (.str "") = .str "" := by
    rw [Py.get, haction]
    rfl
  have htext : actionText showValue schema = .str "  " := by
    rw [actionText, hpayload, haction']
    rfl
  have hmember : ∀ key default, schemaMember schema key default = default := by
    intro key default
    rw [schemaMember, hpayload]
    rfl
  have hreply : handleMessage unicodeWord showValue "SECURITY_ALERT" schema =
      .ok (checkResult showValue schema true "none" []) := by
    rw [handleMessage, if_pos rfl, handleSecurityAlert, htext, hmember, hmember]
    simp only [found_blank]
    rfl
  have hlocalRoute : Coordinator.localRoute "security" first = some false := by
    rw [Coordinator.localRoute, hlocal]
    rfl
  rw [hroute, Coordinator.callAgent, Bool.not_true, Bool.and_false, if_neg Bool.false_ne_true,
    hlocalRoute, hanswer, hreply]
  exact ⟨_, rfl, rfl, rfl, rfl, rfl⟩

end Routed

/-- The security agent, asked whether to delete everything. -/
def asked (schema : Fields) : Meeting where
  localAgent := some ⟨false, true⟩
  localResult := awaited (handleMessage (fun _ => false) (fun _ => "") "SECURITY_ALERT" schema)
  ipcResult := .error .timeout

def deleteEverything : Fields :=
  [("goal", .str "security_concern"), ("utterance", .str "rm -rf /"), ("requires_hal", .bool true)]

theorem routed_approved_deleteEverything : ∃ reply : Fields,
    (Coordinator.new.routePrimary (asked deleteEverything) (asked deleteEverything)
      "security_concern" deleteEverything).1 = some reply ∧
      reply.lookup "approved" = some (.bool true) := by
  have hgoal : "security_concern" ∈ Coordinator.securityGoals := by decide
  have haction : deleteEverything.lookup "action" = none := rfl
  obtain ⟨reply, hreply, happroved, -⟩ := routed_approved (fun _ => false) (fun _ => "")
    Coordinator.new (asked deleteEverything) (asked deleteEverything) hgoal haction rfl rfl rfl
  exact ⟨reply, hreply, happroved⟩

/-! ## Whose package it trusts -/

/-- What the intent engine signs its intents with. -/
def signatures : List String :=
  [IntentEngine.vllmSource, IntentEngine.MockLlmBackend.mockLlmSource,
    IntentEngine.keywordFallbackSource]

/-- In `source` the intent engine says which backend an intent is from, and the coordinator takes
it for where the package is from: an install is trusted exactly when nobody signed the intent. -/
theorem trusted_unsigned (unicodeWord : Char → Bool) (showValue : Value → String) {schema : Fields}
    {goal : String} (hgoal : schema.lookup "goal" = some (.str goal)) (hne : goal ≠ "")
    (hpackage : schema.lookup "package" = none)
    (hsource : ∀ v, schema.lookup "source" = some v → ∃ source ∈ signatures, v = .str source) :
    ∃ reply, handleMessage unicodeWord showValue "INSTALL_TRUST" (Coordinator.trustPayload schema) =
        .ok reply ∧
      (reply.lookup "approved" = some (.bool true) ↔ schema.lookup "source" = none) := by
  have hget : get (Coordinator.trustPayload schema) "package" (.str "") = .str goal := by
    rw [Coordinator.trustPayload]
    simp [Py.get, List.lookup, hpackage, hgoal]
  have htruthy : (Value.str goal).truthy = true := by
    simpa [Value.truthy] using hne
  have hfrom : get (Coordinator.trustPayload schema) "source" (.str "unknown") =
      (schema.lookup "source").getD (.str "apt") := by
    rw [Coordinator.trustPayload]
    simp [Py.get, List.lookup]
  have hmessage : handleMessage unicodeWord showValue "INSTALL_TRUST"
      (Coordinator.trustPayload schema) =
        checkInstallTrust showValue (Coordinator.trustPayload schema) := rfl
  have happroved : ∀ package source type, package.truthy = true →
      ((trustReply showValue package source type).lookup "approved" = some (.bool true) ↔
        type ∈ trustedSources) := by
    intro package source type htruthy
    by_cases htype : type ∈ trustedSources
    · rw [trustReply, if_pos ⟨htype, htruthy⟩]
      exact iff_of_true rfl htype
    · rw [trustReply, if_neg fun h => htype h.1]
      refine iff_of_false ?_ htype
      simp [List.lookup]
  rw [hmessage, checkInstallTrust, hget, hfrom]
  cases hlookup : schema.lookup "source" with
  | none =>
      have hapt : sourceType (.str "apt") = .ok "apt" := rfl
      rw [Option.getD_none, hapt]
      refine ⟨_, rfl, ?_⟩
      rw [happroved _ _ _ htruthy]
      exact iff_of_true (by decide) rfl
  | some v =>
      obtain ⟨source, hmem, rfl⟩ := hsource v hlookup
      have htype : ∃ type, sourceType (.str source) = .ok type ∧ type ∉ trustedSources := by
        simp only [signatures, List.mem_cons, List.not_mem_nil, or_false] at hmem
        rcases hmem with rfl | rfl | rfl
        · exact ⟨_, rfl, by decide⟩
        · exact ⟨_, rfl, by decide⟩
        · exact ⟨_, rfl, by decide⟩
      obtain ⟨type, htype, hother⟩ := htype
      rw [Option.getD_some, htype]
      refine ⟨_, rfl, ?_⟩
      rw [happroved _ _ _ htruthy]
      refine iff_of_false hother ?_
      intro h
      cases h

/-- An install that nobody signed. -/
def unsigned : Fields := [("goal", .str "install_package")]

theorem trusted_unsigned_unsigned : ∃ reply : Fields,
    handleMessage (fun _ => false) (fun _ => "") "INSTALL_TRUST"
      (Coordinator.trustPayload unsigned) = .ok reply ∧
      reply.lookup "approved" = some (.bool true) := by
  have hgoal : unsigned.lookup "goal" = some (.str "install_package") := rfl
  have hsource : ∀ v, unsigned.lookup "source" = some v →
      ∃ source ∈ signatures, v = .str source := by
    intro v h
    cases h
  obtain ⟨reply, hreply, happroved⟩ := trusted_unsigned (fun _ => false) (fun _ => "") hgoal
    (by decide) rfl hsource
  exact ⟨reply, hreply, happroved.mpr rfl⟩

end SecurityAgent

end Agents

/-
# `Cognos.IntentEngine.Disambiguation` — one question, or none

`disambiguation.rs`: candidates are told apart by the recency of the first two, the
directories they lie in, or the words for unfinished work; what the user chose is remembered
under a hash of the context, and chosen again without a question.  The hash is a parameter.

The service does not ask the engine.  An ambiguous intent is answered like any other
(`answer_ambiguous`): with every candidate, the question among the fields of the schema.
-/
import Mathlib
import Cognos.Lib.LexPath
import Cognos.IntentEngine.Service

namespace IntentEngine

open Json (Value Reader)

/-! ## Types -/

/-- A resolved intent after one candidate was selected. -/
structure ResolvedIntent where
  intentId : Uuid
  selectedAction : CandidateAction
  wasDisambiguated : Bool
  disambiguationQuestion : Option String
  userResponse : Option String

inductive CandidateDifferenceKind
  | domain
  | completionState
  | nameOnly
  | recency
  deriving DecidableEq

structure DisambiguationRecord where
  contextHash : UInt64
  goal : String
  domain : Option String
  questionAsked : Option String
  chosenTarget : String
  chosenAt : String

/-- What was learned: under the hash of a context, the target of the chosen candidate. -/
structure DisambiguationMemory where
  records : List DisambiguationRecord
  learnedChoices : AList fun _ : UInt64 => String

/-- Hash of a goal, a domain and the domain that was active last. -/
abbrev ContextHash := String → Option String → Option String → UInt64

/-! ## Targets -/

/-- The components of a path: the root, "." at the head only, and names. -/
def pathComponents (target : String) : List String :=
  let parts := LexPath.components target
  (if target.toList.head? = some '/' then ["/"] else []) ++
    (if parts.head? = some "." then ["."] else []) ++
    parts.filter fun c => c ≠ "" ∧ c ≠ "."

/-- The directory of a target, hyphens and underscores as blanks. -/
def extractDomainLabel (target : String) : String :=
  match (pathComponents target).reverse.tail.head? with
  | some dir => String.ofList (dir.toList.map fun c => if c = '-' ∨ c = '_' then ' ' else c)
  | none => target

/-- The file name of a target, where it ends with a name. -/
def shortName (target : String) : String :=
  match (pathComponents target).getLast? with
  | some name => if name ∈ ["/", ".", ".."] then target else name
  | none => target

def unfinished (target : String) : Bool :=
  Text.containsAny (Text.toLowercase target) ["wip", "unfinished", "draft"]

/-- The words of a text. -/
def splitWhitespace (s : String) : List String :=
  ((s.toList.splitOnP Text.isWhitespace).filter (· ≠ [])).map String.ofList

/-! ## Candidates -/

/-- `max_by`: the last of the greatest. -/
def maxBy {α : Type} (greater : α → α → Bool) : List α → Option α
  | [] => none
  | a :: as => some (as.foldl (fun best c => if greater best c then best else c) a)

/-- Classify the primary dimension of difference between candidates. -/
def classifyDifference (candidates : List CandidateAction) : CandidateDifferenceKind :=
  match (candidates.map (·.recencyScore)).mergeSort fun a b => !decide (a < b) with
  | first :: second :: _ =>
      if 0.4 < first - second then .recency
      else if 1 < (candidates.map fun c => extractDomainLabel c.target).dedup.length then .domain
      else if candidates.any fun c => unfinished c.target then .completionState
      else .nameOnly
  | _ => .nameOnly

/-- The candidate whose name shares most words with the response, where it shares one. -/
def matchResponse (candidates : List CandidateAction) (response : String) :
    Option CandidateAction :=
  let shared := fun c : CandidateAction =>
    (splitWhitespace (Text.toLowercase (shortName c.target))).filter
      (Text.contains (Text.toLowercase response))
  (maxBy (fun a b => decide ((shared b).length < (shared a).length)) candidates).filter
    fun c => shared c ≠ []

def mostRecent : List CandidateAction → Option CandidateAction :=
  maxBy fun a b => decide (b.recencyScore < a.recencyScore)

def mostConfident : List CandidateAction → Option CandidateAction :=
  maxBy fun a b => decide (b.confidence < a.confidence)

/-! ## Engine -/

namespace DisambiguationMemory

variable (hash : ContextHash) (m : DisambiguationMemory)

def contextHash (schema : IntentSchema) : UInt64 :=
  hash schema.goal schema.domain schema.sessionContext.lastActiveDomain

/-- The question to ask and its options, or none. -/
def selectQuestion (schema : IntentSchema) : Option (String × List String) :=
  if schema.candidateActions.length < 2 then none
  else if contextHash hash schema ∈ m.learnedChoices then none
  else match classifyDifference schema.candidateActions with
  | .recency => none
  | .domain =>
      let domains := schema.candidateActions.map fun c => extractDomainLabel c.target
      some ("Which domain — " ++ String.intercalate " or " domains ++ "?", domains)
  | .completionState =>
      some ("The finished version or the one you left mid-way?",
        ["the finished one", "the one left mid-way"])
  | .nameOnly =>
      let names := (schema.candidateActions.take 4).map fun c => shortName c.target
      some (String.intercalate " or " names ++ "?", names)

/-- Resolve by the user's response, else by confidence; there may be nothing to select.
Writing the memory to disk has no influence. -/
def resolve (now : String) (schema : IntentSchema) (response : String) :
    Option (ResolvedIntent × DisambiguationMemory) := do
  let selected ← (matchResponse schema.candidateActions response).or
    (mostConfident schema.candidateActions)
  let key := contextHash hash schema
  return (⟨schema.intentId, selected, true, schema.disambiguationQuestion, some response⟩,
    { records := m.records ++ [⟨key, schema.goal, schema.domain, schema.disambiguationQuestion,
        selected.target, now⟩]
      learnedChoices := m.learnedChoices.insert key selected.target })

/-- Resolve without a question: by a learned choice, or by recency. -/
def tryAutoResolve (schema : IntentSchema) : Option ResolvedIntent :=
  match m.learnedChoices.lookup (contextHash hash schema) with
  | some learned =>
      ((schema.candidateActions.find? fun c => c.target == learned).or
        schema.candidateActions.head?).map fun c => ⟨schema.intentId, c, false, none, none⟩
  | none =>
      match classifyDifference schema.candidateActions with
      | .recency => (mostRecent schema.candidateActions).map fun c =>
          ⟨schema.intentId, c, false, none, none⟩
      | _ => none

/-- The engine selects this, by itself or after some response to its question. -/
def Selects (schema : IntentSchema) (r : ResolvedIntent) : Prop :=
  m.tryAutoResolve hash schema = some r ∨
    ∃ now response next, m.resolve hash now schema response = some (r, next)

end DisambiguationMemory

/-! ## What is selected -/

theorem maxBy_mem {α : Type} {greater : α → α → Bool} {as : List α} {b : α}
    (h : maxBy greater as = some b) : b ∈ as := by
  cases as with
  | nil => cases h
  | cons a as =>
      have hfold : ∀ (bs : List α) (c : α),
          bs.foldl (fun best c => if greater best c then best else c) c ∈ c :: bs := by
        intro bs
        induction bs with
        | nil =>
            intro c
            exact List.mem_singleton_self c
        | cons b bs ih =>
            intro c
            rw [List.foldl_cons]
            split_ifs
            · rcases List.mem_cons.mp (ih c) with heq | hmem
              · rw [heq]
                exact List.mem_cons_self
              · exact List.mem_cons_of_mem _ (List.mem_cons_of_mem _ hmem)
            · exact List.mem_cons_of_mem _ (ih b)
      obtain rfl := Option.some.inj h
      exact hfold as a

theorem matchResponse_mem {candidates : List CandidateAction} {response : String}
    {c : CandidateAction} (h : matchResponse candidates response = some c) : c ∈ candidates :=
  maxBy_mem (Option.filter_eq_some_iff.mp h).1

section Selected

variable {hash : ContextHash} {m : DisambiguationMemory} {schema : IntentSchema}
  {r : ResolvedIntent}

theorem mem_of_tryAutoResolve (h : m.tryAutoResolve hash schema = some r) :
    r.selectedAction ∈ schema.candidateActions := by
  unfold DisambiguationMemory.tryAutoResolve at h
  split at h
  · obtain ⟨c, hc, rfl⟩ := Option.map_eq_some_iff.mp h
    rcases Option.or_eq_some_iff.mp hc with hfound | ⟨-, hhead⟩
    · exact List.mem_of_find?_eq_some hfound
    · exact List.mem_of_head? hhead
  · split at h
    · obtain ⟨c, hc, rfl⟩ := Option.map_eq_some_iff.mp h
      exact maxBy_mem hc
    · cases h

theorem mem_of_resolve {now response : String} {next : DisambiguationMemory}
    (h : m.resolve hash now schema response = some (r, next)) :
    r.selectedAction ∈ schema.candidateActions := by
  obtain ⟨c, hc, heq⟩ := Option.bind_eq_some_iff.mp h
  obtain ⟨rfl, -⟩ := Prod.mk.inj (Option.some.inj heq)
  rcases Option.or_eq_some_iff.mp hc with hmatch | ⟨-, hconfident⟩
  · exact matchResponse_mem hmatch
  · exact maxBy_mem hconfident

/-- What is selected is one of the candidates. -/
theorem mem_of_selects (h : m.Selects hash schema r) :
    r.selectedAction ∈ schema.candidateActions := by
  rcases h with hauto | ⟨now, response, next, hresolve⟩
  · exact mem_of_tryAutoResolve hauto
  · exact mem_of_resolve hresolve

end Selected

/-! ## Ambiguous intents -/

section Ambiguous

variable (stamps : Bool) {w : ServiceWorld} {intent : Request} {schema : IntentSchema}

/-- The schema goes along with the graph, so that its question can be asked. -/
theorem handle_carried (h : w.parse intent.rawInput (buildSession w intent) = .ok schema)
    (hok : (handle stamps w intent).status = "ok") :
    (handle stamps w intent).carried = some (schemaToProto (stampSource stamps schema)) := by
  have hgoal := (handle_parsed stamps h).1.mp hok
  rw [← (stampSource_same stamps schema).1] at hgoal
  rw [handle_ok stamps h, answer, nonExecutableReason_iff.mpr hgoal]

/-- An ambiguous intent that is answered is answered with all of its candidates, whatever the
engine remembers and would select: its selection is among them, and alone when it is the only
candidate. -/
theorem answer_ambiguous (hash : ContextHash) (m : DisambiguationMemory)
    (h : w.parse intent.rawInput (buildSession w intent) = .ok schema)
    (hfresh : ActionGraph.DistinctIds w.freshNodes schema)
    (hrequired : schema.disambiguationRequired = true)
    (hok : (handle stamps w intent).status = "ok") :
    ∃ graph carried, (handle stamps w intent).actionGraph = some graph ∧
      (handle stamps w intent).carried = some carried ∧
      (pairs graph).Perm schema.listed ∧
      carried.disambiguationRequired = true ∧
      carried.disambiguationQuestion = schema.disambiguationQuestion.getD "" ∧
      ∀ r, m.Selects hash schema r →
        (r.selectedAction.action, r.selectedAction.target) ∈ pairs graph ∧
          (graph.nodes.length = 1 ↔ schema.candidateActions.length = 1) := by
  obtain ⟨graph, hgraph, hperm⟩ := exists_graph stamps h hfresh hok
  refine ⟨graph, _, hgraph, handle_carried stamps h hok, hperm, ?_, ?_, ?_⟩
  · rw [← hrequired]
    show (stampSource stamps schema).disambiguationRequired = _
    unfold stampSource
    split_ifs
    · rfl
    · rfl
  · show (stampSource stamps schema).disambiguationQuestion.getD "" = _
    unfold stampSource
    split_ifs
    · rfl
    · rfl
  · intro r hr
    have hmem := mem_of_selects hr
    have hlisted : schema.listed = schema.candidateActions.map fun c => (c.action, c.target) := by
      rw [IntentSchema.listed, if_neg (List.ne_nil_of_mem hmem)]
    rw [hlisted] at hperm
    refine ⟨hperm.mem_iff.mpr (List.mem_map_of_mem hmem), ?_⟩
    have hlength := hperm.length_eq
    rw [pairs, List.length_map, List.length_map] at hlength
    rw [hlength]

end Ambiguous

def twoFiles : Value :=
  output "open_file" [("open_files", "old/a.txt"), ("open_files", "new/a.txt")] (some "Which one?")

/-- The second of two files was chosen before, whatever the context. -/
def remembered : DisambiguationMemory where
  records := []
  learnedChoices := (∅ : AList fun _ : UInt64 => String).insert 0 "new/a.txt"

/-- Accepted, ambiguous, answered, and one of its two candidates is remembered. -/
theorem exists_twoFiles : ∃ s,
    parseLlmOutputWithContext Reader.sample .nil twoFiles.print "open a.txt" session = .ok s ∧
    (readAs twoFiles).parse (utter "open a.txt").rawInput
      (buildSession (readAs twoFiles) (utter "open a.txt")) = .ok s ∧
    ActionGraph.DistinctIds (readAs twoFiles).freshNodes s ∧
    s.disambiguationRequired = true ∧
    (handle false (readAs twoFiles) (utter "open a.txt")).status = "ok" ∧
    s.candidateActions.length = 2 ∧
    ∃ r, remembered.tryAutoResolve (fun _ _ _ => 0) s = some r ∧
      r.selectedAction.target = "new/a.txt" := by
  obtain ⟨s, hs, hparse, hfresh, hgoal, hcandidates, hrequired⟩ := exists_output _ _ _ "open a.txt"
    (rfl : _ = twoFiles) (by decide) (by decide) (by decide) (by decide +kernel)
  have hok : (handle false (readAs twoFiles) (utter "open a.txt")).status = "ok" := by
    rw [(handle_parsed false hparse).1, hgoal]
    decide
  obtain ⟨c, cs, hcons, hfirst, hrest⟩ := List.map_eq_cons_iff.mp hcandidates
  obtain ⟨d, ds, rfl, hsecond, hnil⟩ := List.map_eq_cons_iff.mp hrest
  obtain rfl := List.map_eq_nil_iff.mp hnil
  have hold : c.target = "old/a.txt" := congrArg Prod.snd hfirst
  have hnew : d.target = "new/a.txt" := congrArg Prod.snd hsecond
  refine ⟨s, hs, hparse, hfresh, hrequired, hok, ?_, ⟨s.intentId, d, false, none, none⟩, ?_,
    hnew⟩
  · rw [hcons]
    rfl
  · have hfind : (s.candidateActions.find? fun c => c.target == "new/a.txt") = some d := by
      rw [hcons, List.find?, hold, List.find?, hnew]
      rfl
    show ((s.candidateActions.find? _).or _).map _ = _
    rw [hfind]
    rfl

theorem answer_ambiguous_twoFiles : ∃ s graph,
    parseLlmOutputWithContext Reader.sample .nil twoFiles.print "open a.txt" session = .ok s ∧
    (handle false (readAs twoFiles) (utter "open a.txt")).actionGraph = some graph ∧
    (pairs graph).Perm s.listed := by
  obtain ⟨s, hs, hparse, hfresh, hrequired, hok, -, -⟩ := exists_twoFiles
  obtain ⟨graph, carried, hgraph, -, hperm, -⟩ :=
    answer_ambiguous false (fun _ _ _ => 0) remembered hparse hfresh hrequired hok
  exact ⟨s, graph, hs, hgraph, hperm⟩

/-- Both files are sent to be opened, though one of them is remembered. -/
theorem not_chosen_twoFiles : ∃ s graph r,
    parseLlmOutputWithContext Reader.sample .nil twoFiles.print "open a.txt" session = .ok s ∧
    s.disambiguationRequired = true ∧
    remembered.tryAutoResolve (fun _ _ _ => 0) s = some r ∧
    r.selectedAction.target = "new/a.txt" ∧
    (handle false (readAs twoFiles) (utter "open a.txt")).status = "ok" ∧
    (handle false (readAs twoFiles) (utter "open a.txt")).actionGraph = some graph ∧
    graph.nodes.length = 2 := by
  obtain ⟨s, hs, hparse, hfresh, hrequired, hok, hlength, r, hr, htarget⟩ := exists_twoFiles
  obtain ⟨graph, hgraph, hperm⟩ := exists_graph false hparse hfresh hok
  refine ⟨s, graph, r, hs, hrequired, hr, htarget, hok, hgraph, ?_⟩
  have hlisted : s.listed = s.candidateActions.map fun c => (c.action, c.target) := by
    rw [IntentSchema.listed, if_neg (List.ne_nil_of_length_pos (hlength ▸ Nat.zero_lt_two))]
  rw [← hlength, ← List.length_map (f := fun c : CandidateAction => (c.action, c.target)),
    ← hlisted, ← hperm.length_eq, pairs, List.length_map]

end IntentEngine

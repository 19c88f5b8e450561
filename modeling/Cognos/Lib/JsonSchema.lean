/-
# `Cognos.Lib.JsonSchema` — JSON Schema, as far as keywords go one by one

A schema is a list of keywords; each asks something of the values it is about and
nothing of all others, and a value is valid when all of them hold.  The names of the
members an object may have are those of `properties`, where no others are allowed.

A schema speaks of objects with one member of a name.  Here every member of a name is
held to its schema, so nothing depends on which of them a reader keeps.

    valid_index   a member that is required is valid under its own schema
-/
import Mathlib
import Cognos.Lib.Json.Number

namespace JsonSchema

open Json (Value)

/-! ## Keywords -/

inductive TypeName
  | null | boolean | number | string | array | object

def TypeName.admits : TypeName → Value → Bool
  | .null, .null => true
  | .boolean, .bool _ => true
  | .number, .num _ => true
  | .string, .str _ => true
  | .array, .arr _ => true
  | .object, .obj _ => true
  | _, _ => false

inductive Keyword
  | type (ts : List TypeName)
  /-- Strings, and `null` as `none`. -/
  | enum (vs : List (Option String))
  | minimum (q : ℚ)
  | maximum (q : ℚ)
  /-- `^[…]{lo,hi}$` -/
  | pattern (ranges : List (Char × Char)) (lo hi : Nat)
  | items (s : List Keyword)
  | required (names : List String)
  /-- `properties`, with `additionalProperties`. -/
  | properties (ps : List (String × List Keyword)) (additional : Bool)

abbrev Schema := List Keyword

def enumHas (vs : List (Option String)) : Value → Bool
  | .null => vs.contains none
  | .str s => vs.contains (some s)
  | _ => false

mutual

def Keyword.holds : Keyword → Value → Bool
  | .type ts, v => ts.any (·.admits v)
  | .enum vs, v => enumHas vs v
  | .minimum q, .num n => decide (q ≤ n.value)
  | .maximum q, .num n => decide (n.value ≤ q)
  | .pattern ranges lo hi, .str s =>
      s.toList.all (Text.inClass ranges) && decide (lo ≤ s.toList.length) &&
        decide (s.toList.length ≤ hi)
  | .items s, .arr vs => vs.all fun v => valid s v
  | .required names, .obj fs => names.all fun name => fs.any (·.1 == name)
  | .properties ps additional, .obj fs => fs.all fun f => propertyHolds ps additional f.1 f.2
  | _, _ => true

/-- All keywords hold. -/
def valid : List Keyword → Value → Bool
  | [], _ => true
  | k :: s, v => k.holds v && valid s v

/-- The member is valid under the schema of its name, if it has one. -/
def propertyHolds : List (String × List Keyword) → Bool → String → Value → Bool
  | [], additional, _, _ => additional
  | (name, s) :: ps, additional, key, v =>
      if key == name then valid s v else propertyHolds ps additional key v

end

/-! ## Validity, keyword by keyword -/

theorem valid_iff {s : Schema} {v : Value} : valid s v = true ↔ ∀ k ∈ s, k.holds v = true := by
  induction s with
  | nil => simp [valid]
  | cons k s ih => rw [valid, Bool.and_eq_true, ih, List.forall_mem_cons]

theorem propertyHolds_of_lookup {ps : List (String × Schema)} {additional : Bool} {key : String}
    {s : Schema} (h : ps.lookup key = some s) (v : Value) :
    propertyHolds ps additional key v = valid s v := by
  induction ps with
  | nil => cases h
  | cons p ps ih =>
      obtain ⟨name, t⟩ := p
      rw [List.lookup_cons] at h
      rw [propertyHolds]
      cases hkey : key == name with
      | true =>
          rw [hkey] at h
          cases h
          rfl
      | false =>
          rw [hkey] at h
          exact ih h

/-- No other members: one that holds has a schema. -/
theorem exists_lookup_of_propertyHolds {ps : List (String × Schema)} {key : String} {v : Value}
    (h : propertyHolds ps false key v = true) :
    ∃ s, (key, s) ∈ ps ∧ valid s v = true := by
  induction ps with
  | nil => cases h
  | cons p ps ih =>
      obtain ⟨name, t⟩ := p
      rw [propertyHolds] at h
      split at h
      · next hkey =>
        obtain rfl := eq_of_beq hkey
        exact ⟨t, List.mem_cons_self, h⟩
      · obtain ⟨s, hs, hv⟩ := ih h
        exact ⟨s, List.mem_cons_of_mem _ hs, hv⟩

section Shapes

variable {v : Value}

theorem exists_of_object (h : (Keyword.type [.object]).holds v = true) : ∃ fs, v = .obj fs := by
  cases v with
  | obj fs => exact ⟨fs, rfl⟩
  | _ => cases h

theorem exists_of_array (h : (Keyword.type [.array]).holds v = true) : ∃ vs, v = .arr vs := by
  cases v with
  | arr vs => exact ⟨vs, rfl⟩
  | _ => cases h

theorem exists_of_number (h : (Keyword.type [.number]).holds v = true) : ∃ n, v = .num n := by
  cases v with
  | num n => exact ⟨n, rfl⟩
  | _ => cases h

theorem exists_of_string (h : (Keyword.type [.string]).holds v = true) : ∃ t, v = .str t := by
  cases v with
  | str t => exact ⟨t, rfl⟩
  | _ => cases h

theorem exists_of_boolean (h : (Keyword.type [.boolean]).holds v = true) : ∃ b, v = .bool b := by
  cases v with
  | bool b => exact ⟨b, rfl⟩
  | _ => cases h

/-- A string, or nothing. -/
theorem exists_of_optional (h : (Keyword.type [.string, .null]).holds v = true) :
    (∃ t, v = .str t) ∨ v = .null := by
  cases v with
  | str t => exact Or.inl ⟨t, rfl⟩
  | null => exact Or.inr rfl
  | _ => cases h

end Shapes

/-- What an object schema says of each member. -/
theorem valid_of_mem {ps : List (String × Schema)} {additional : Bool} {fs : List (String × Value)}
    (h : (Keyword.properties ps additional).holds (.obj fs) = true) {key : String} {x : Value}
    {s : Schema} (hmem : (key, x) ∈ fs) (hs : ps.lookup key = some s) : valid s x = true := by
  have hmember : propertyHolds ps additional key x = true := List.all_eq_true.mp h (key, x) hmem
  rwa [propertyHolds_of_lookup hs] at hmember

/-- A member is one of the members listed. -/
theorem mem_index {fs : List (String × Value)} {key : String} (h : key ∈ fs.map Prod.fst) :
    (key, (Value.obj fs).index key) ∈ fs := by
  obtain ⟨f, hf, rfl⟩ := List.mem_map.mp h
  have hsome : (fs.reverse.lookup f.1).isSome = true := by
    rw [List.lookup_isSome_iff]
    exact ⟨f, List.mem_reverse.mpr hf, beq_self_eq_true _⟩
  obtain ⟨x, hx⟩ := Option.isSome_iff_exists.mp hsome
  have hindex : (Value.obj fs).index f.1 = x := by
    rw [Value.index, Value.get?, hx, Option.getD_some]
  obtain ⟨l₁, l₂, hsplit, -⟩ := List.lookup_eq_some_iff.mp hx
  rw [hindex, ← List.mem_reverse, hsplit]
  exact List.mem_append_right _ List.mem_cons_self

/-- A member that is required is there, and valid under its own schema. -/
theorem valid_index {names : List String} {ps : List (String × Schema)} {additional : Bool}
    {fs : List (String × Value)} (hrequired : (Keyword.required names).holds (.obj fs) = true)
    (hps : (Keyword.properties ps additional).holds (.obj fs) = true) {key : String} {s : Schema}
    (hkey : key ∈ names) (hs : ps.lookup key = some s) :
    valid s ((Value.obj fs).index key) = true := by
  obtain ⟨f, hf, hname⟩ := List.any_eq_true.mp (List.all_eq_true.mp hrequired key hkey)
  obtain rfl := eq_of_beq hname
  exact valid_of_mem hps (mem_index (List.mem_map_of_mem hf)) hs

/-- An object with exactly the members of a closed schema, each valid. -/
theorem valid_of_members {names : List String} {ps : List (String × Schema)}
    {fs : List (String × Value)} (hnames : fs.map Prod.fst = names)
    (hfs : ∀ f ∈ fs, ∃ s, ps.lookup f.1 = some s ∧ valid s f.2 = true) :
    valid [.type [.object], .required names, .properties ps false] (.obj fs) = true := by
  refine valid_iff.mpr ?_
  simp only [List.forall_mem_cons, List.not_mem_nil, false_implies, implies_true, and_true]
  refine ⟨rfl, ?_, ?_⟩
  · refine List.all_eq_true.mpr fun name hname => ?_
    rw [← hnames] at hname
    obtain ⟨f, hf, rfl⟩ := List.mem_map.mp hname
    exact List.any_eq_true.mpr ⟨f, hf, beq_self_eq_true _⟩
  · refine List.all_eq_true.mpr fun f hf => ?_
    obtain ⟨s, hs, hvalid⟩ := hfs f hf
    rw [propertyHolds_of_lookup hs]
    exact hvalid

end JsonSchema

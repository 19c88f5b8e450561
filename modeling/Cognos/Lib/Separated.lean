/-
# `Cognos.Lib.Separated` — fields with a separator between them

A message of fields, each followed by a separator, and a rest behind the last one
(`join`).  Fields are of some kind `P` that a separator cuts into two of the kind.  Which
messages give their fields back:

    join_injective     as many fields without separators on both sides
    eq_of_join_eq      fields without separators, unless the rest starts with a field
    exists_join_eq     a separator in a field: another message with the same bytes
    concat_join_eq     a rest that starts with a field: another one, too

The kind at hand is that of UTF-8 texts, which a byte below 128 cuts (`IsText.cut`).
-/
import Mathlib
import Cognos.Lib.Text

namespace Separated

section Join

variable {α : Type} {sep : α}

/-- Where the first separator is, when the first field has none. -/
theorem append_cons_cases {xs ys zs ws : List α} (hxs : sep ∉ xs)
    (h : xs ++ sep :: ys = zs ++ sep :: ws) :
    (zs = xs ∧ ws = ys) ∨ ∃ r, zs = xs ++ sep :: r ∧ ys = r ++ sep :: ws := by
  rcases List.append_eq_append_iff.mp h with ⟨r, hzs, hys⟩ | ⟨r, hxs', hws⟩
  · cases r with
    | nil =>
        rw [List.nil_append, List.cons.injEq] at hys
        exact Or.inl ⟨by rw [hzs, List.append_nil], hys.2.symm⟩
    | cons c r =>
        rw [List.cons_append, List.cons.injEq] at hys
        obtain ⟨rfl, hys⟩ := hys
        exact Or.inr ⟨r, hzs, hys⟩
  · cases r with
    | nil =>
        rw [List.nil_append, List.cons.injEq] at hws
        exact Or.inl ⟨by rw [hxs', List.append_nil], hws.2⟩
    | cons c r =>
        rw [List.cons_append, List.cons.injEq] at hws
        obtain ⟨rfl, -⟩ := hws
        exact absurd (by rw [hxs']; exact List.mem_append_right _ List.mem_cons_self) hxs

/-- Where the last separator is, when there is none behind it. -/
theorem append_cons_last {xs ys zs ws : List α} (hys : sep ∉ ys) (hws : sep ∉ ws)
    (h : xs ++ sep :: ys = zs ++ sep :: ws) : xs = zs ∧ ys = ws := by
  have hrev : ys.reverse ++ sep :: xs.reverse = ws.reverse ++ sep :: zs.reverse := by
    simpa using congrArg List.reverse h
  rcases append_cons_cases (by simpa using hys) hrev with ⟨hw, hz⟩ | ⟨r, hw, -⟩
  · exact ⟨(List.reverse_injective hz).symm, (List.reverse_injective hw).symm⟩
  · have hmem : sep ∈ ws.reverse := by
      rw [hw]
      exact List.mem_append_right _ List.mem_cons_self
    exact absurd (List.mem_reverse.mp hmem) hws

variable (sep)

/-- The fields, a separator behind each, and the rest. -/
def join (fields : List (List α)) (rest : List α) : List α :=
  fields.foldr (fun f acc => f ++ sep :: acc) rest

@[simp] theorem join_nil (rest : List α) : join sep [] rest = rest := rfl

@[simp] theorem join_cons (f : List α) (fields : List (List α)) (rest : List α) :
    join sep (f :: fields) rest = f ++ sep :: join sep fields rest := rfl

theorem join_concat (fields : List (List α)) (f rest : List α) :
    join sep (fields ++ [f]) rest = join sep fields (f ++ sep :: rest) := by
  rw [join, List.foldr_append]
  rfl

variable {sep}

/-- As many fields on both sides and no separator in any: all is given back. -/
theorem join_injective {fs hs : List (List α)} {p q : List α} (hfs : ∀ f ∈ fs, sep ∉ f)
    (hhs : ∀ h ∈ hs, sep ∉ h) (hlen : fs.length = hs.length)
    (h : join sep fs p = join sep hs q) : fs = hs ∧ p = q := by
  induction fs generalizing hs with
  | nil =>
      cases hs with
      | nil => exact ⟨rfl, h⟩
      | cons g hs => cases hlen
  | cons f fs ih =>
      cases hs with
      | nil => cases hlen
      | cons g hs =>
          obtain ⟨hf, hfs'⟩ := List.forall_mem_cons.mp hfs
          obtain ⟨hg, hhs'⟩ := List.forall_mem_cons.mp hhs
          rcases append_cons_cases hf h with ⟨rfl, hrest⟩ | ⟨r, rfl, -⟩
          · obtain ⟨rfl, hpq⟩ := ih hfs' hhs' (Nat.succ_injective hlen) hrest.symm
            exact ⟨rfl, hpq⟩
          · exact absurd (List.mem_append_right _ List.mem_cons_self) hg

variable {P : List α → Prop}

/-- Fields without separators are given back, unless the rest starts with a field. -/
theorem eq_of_join_eq (hcut : ∀ l r, P (l ++ sep :: r) → P l ∧ P r) {fs hs : List (List α)}
    {p q : List α} (hfs : ∀ f ∈ fs, sep ∉ f) (hhs : ∀ h ∈ hs, P h) (hlen : fs.length ≤ hs.length)
    (h : join sep fs p = join sep hs q) :
    (fs = hs ∧ p = q) ∨ ∃ l r, p = l ++ sep :: r ∧ P l := by
  induction fs generalizing hs with
  | nil =>
      cases hs with
      | nil => exact Or.inl ⟨rfl, h⟩
      | cons g hs => exact Or.inr ⟨g, _, h, hhs g List.mem_cons_self⟩
  | cons f fs ih =>
      cases hs with
      | nil => exact absurd hlen (by simp)
      | cons g hs =>
          have hrest : ∀ f ∈ fs, sep ∉ f := fun k hk => hfs k (List.mem_cons_of_mem _ hk)
          have hhs' : ∀ h ∈ hs, P h := fun k hk => hhs k (List.mem_cons_of_mem _ hk)
          have hlen' : fs.length ≤ hs.length := Nat.le_of_succ_le_succ hlen
          rcases append_cons_cases (hfs f List.mem_cons_self) h with ⟨hg, hjoin⟩ | ⟨r, hg, hjoin⟩
          · rcases ih hrest hhs' hlen' hjoin.symm with ⟨heq, hpq⟩ | hstart
            · exact Or.inl ⟨by rw [hg, heq], hpq⟩
            · exact Or.inr hstart
          · -- the other message's field goes on behind `f`: it has a field to spare from here on
            have hr : P r := (hcut f r (hg ▸ hhs g List.mem_cons_self)).2
            rcases ih hrest (List.forall_mem_cons.mpr ⟨hr, hhs'⟩) (Nat.le_succ_of_le hlen')
              hjoin with ⟨heq, -⟩ | hstart
            · have hcount := congrArg List.length heq
              rw [List.length_cons] at hcount
              omega
            · exact Or.inr hstart

/-- A separator in a field: cut there, and every later field is one place off. -/
theorem exists_join_eq (hcut : ∀ l r, P (l ++ sep :: r) → P l ∧ P r) {fs : List (List α)}
    (hfs : ∀ f ∈ fs, P f) (hsep : ∃ f ∈ fs, sep ∈ f) (p : List α) :
    ∃ hs q, hs.length = fs.length ∧ (∀ h ∈ hs, P h) ∧ hs ≠ fs ∧
      join sep hs q = join sep fs p := by
  induction fs with
  | nil =>
      obtain ⟨f, hf, -⟩ := hsep
      cases hf
  | cons f fs ih =>
      obtain ⟨hf, hrest⟩ := List.forall_mem_cons.mp hfs
      by_cases hmem : sep ∈ f
      · obtain ⟨l, r, rfl⟩ := List.append_of_mem hmem
        obtain ⟨hl, hr⟩ := hcut l r hf
        have hne : r :: fs ≠ [] := List.cons_ne_nil _ _
        refine ⟨l :: (r :: fs).dropLast, (r :: fs).getLast hne ++ sep :: p, ?_, ?_, ?_, ?_⟩
        · simp
        · rw [List.forall_mem_cons]
          refine ⟨hl, fun k hk => ?_⟩
          exact List.forall_mem_cons.mpr ⟨hr, hrest⟩ k (List.mem_of_mem_dropLast hk)
        · intro heq
          have hhead : l = l ++ sep :: r := (List.cons.inj heq).1
          simp at hhead
        · rw [join_cons, ← join_concat, List.dropLast_append_getLast hne]
          simp
      · have hsep' : ∃ f ∈ fs, sep ∈ f := by
          obtain ⟨k, hk, hkmem⟩ := hsep
          rcases List.mem_cons.mp hk with rfl | hk
          · exact absurd hkmem hmem
          · exact ⟨k, hk, hkmem⟩
        obtain ⟨hs, q, hlen, hhs, hne, hjoin⟩ := ih hrest hsep'
        refine ⟨f :: hs, q, by simp [hlen], List.forall_mem_cons.mpr ⟨hf, hhs⟩, ?_, ?_⟩
        · exact fun heq => hne (List.cons.inj heq).2
        · rw [join_cons, join_cons, hjoin]

/-- A rest that starts with a field: the last field can take it. -/
theorem concat_join_eq (fs : List (List α)) (f l r : List α) :
    join sep (fs ++ [f ++ sep :: l]) r = join sep (fs ++ [f]) (l ++ sep :: r) := by
  rw [join_concat, join_concat]
  simp

end Join

/-! ## Texts -/

theorem bytes_ofList (cs : List Char) :
    Text.bytes (String.ofList cs) = cs.flatMap String.utf8EncodeChar := by
  simp [Text.bytes, String.ofList, List.utf8Encode]

/-- A byte below 128 in the encoding of a character is all of it. -/
theorem utf8EncodeChar_of_mem {c : Char} {b : UInt8} (hb : b ∈ String.utf8EncodeChar c)
    (hlt : b.toNat < 128) : String.utf8EncodeChar c = [b] ∧ c.toNat = b.toNat := by
  have hhigh : ∀ n, 128 ≤ n → n < 256 → b ≠ UInt8.ofNat n := by
    rintro n hle hn rfl
    rw [UInt8.toNat_ofNat_of_lt' hn] at hlt
    omega
  have hval : c.toNat = c.val.toNat := rfl
  simp only [String.utf8EncodeChar] at hb ⊢
  split at hb
  · next hle =>
      rw [List.mem_singleton] at hb
      refine ⟨by rw [if_pos hle, hb], ?_⟩
      have hsize : c.val.toNat < UInt8.size := Nat.lt_of_le_of_lt hle (by decide)
      rw [hb, UInt8.toNat_ofNat_of_lt' hsize, hval]
  · exfalso
    split at hb
    · simp only [List.mem_cons, List.not_mem_nil, or_false] at hb
      rcases hb with hb | hb <;> exact hhigh _ (by omega) (by omega) hb
    · split at hb
      · simp only [List.mem_cons, List.not_mem_nil, or_false] at hb
        rcases hb with hb | hb | hb <;> exact hhigh _ (by omega) (by omega) hb
      · simp only [List.mem_cons, List.not_mem_nil, or_false] at hb
        rcases hb with hb | hb | hb | hb <;> exact hhigh _ (by omega) (by omega) hb

/-- A byte below 128 in a text is a character of it. -/
theorem split_flatMap {b : UInt8} (hlt : b.toNat < 128) {cs : List Char} {A B : List UInt8}
    (h : cs.flatMap String.utf8EncodeChar = A ++ b :: B) :
    ∃ l c r, cs = l ++ c :: r ∧ c.toNat = b.toNat ∧ l.flatMap String.utf8EncodeChar = A ∧
      r.flatMap String.utf8EncodeChar = B := by
  induction cs generalizing A with
  | nil => exact absurd h (by simp)
  | cons c cs ih =>
      rw [List.flatMap_cons] at h
      rcases List.append_eq_append_iff.mp h with ⟨A', hA, hcs⟩ | ⟨e, henc, hB⟩
      · obtain ⟨l, d, r, rfl, hd, hl, hr⟩ := ih hcs
        exact ⟨c :: l, d, r, rfl, hd, by rw [List.flatMap_cons, hl, hA], hr⟩
      · cases e with
        | nil =>
            obtain ⟨l, d, r, rfl, hd, hl, hr⟩ := ih (A := []) hB.symm
            refine ⟨c :: l, d, r, rfl, hd, ?_, hr⟩
            rw [List.flatMap_cons, hl, henc, List.append_nil, List.append_nil]
        | cons x e =>
            rw [List.cons_append, List.cons.injEq] at hB
            obtain ⟨rfl, hB⟩ := hB
            have hmem : b ∈ String.utf8EncodeChar c := by
              rw [henc]
              exact List.mem_append_right _ List.mem_cons_self
            obtain ⟨hone, hc⟩ := utf8EncodeChar_of_mem hmem hlt
            rw [hone] at henc
            have hA : A = [] ∧ e = [] := by
              cases A with
              | nil =>
                  rw [List.nil_append, List.cons.injEq] at henc
                  exact ⟨rfl, henc.2.symm⟩
              | cons y A => simp at henc
            obtain ⟨rfl, rfl⟩ := hA
            exact ⟨[], c, cs, rfl, hc, rfl, by simpa using hB.symm⟩

/-- A byte string is the bytes of a text. -/
def IsText (bs : List UInt8) : Prop := ∃ s, Text.bytes s = bs

theorem isText_bytes (s : String) : IsText (Text.bytes s) := ⟨s, rfl⟩

/-- A byte below 128 cuts a text into two. -/
theorem IsText.cut {b : UInt8} (hlt : b.toNat < 128) (l r : List UInt8)
    (h : IsText (l ++ b :: r)) : IsText l ∧ IsText r := by
  obtain ⟨s, hs⟩ := h
  rw [← String.ofList_toList (s := s), bytes_ofList] at hs
  obtain ⟨cl, -, cr, -, -, hl, hr⟩ := split_flatMap hlt hs
  exact ⟨⟨String.ofList cl, by rw [bytes_ofList, hl]⟩, ⟨String.ofList cr, by rw [bytes_ofList, hr]⟩⟩

/-- A character below 128 is in a text as its byte. -/
theorem mem_bytes_iff {b : UInt8} {c : Char} (hlt : b.toNat < 128) (hc : c.toNat = b.toNat)
    {s : String} : b ∈ Text.bytes s ↔ c ∈ s.toList := by
  rw [← String.ofList_toList (s := s), bytes_ofList, String.toList_ofList]
  constructor
  · intro hb
    obtain ⟨A, B, hAB⟩ := List.append_of_mem hb
    obtain ⟨l, d, r, hcs, hd, -, -⟩ := split_flatMap hlt hAB
    have hcd : d = c := Char.toNat_inj.mp (hd.trans hc.symm)
    rw [hcs, hcd]
    exact List.mem_append_right _ List.mem_cons_self
  · intro hmem
    refine List.mem_flatMap.mpr ⟨c, hmem, ?_⟩
    have hval : c.val.toNat = b.toNat := hc
    unfold String.utf8EncodeChar
    simp only [hval]
    rw [if_pos (by omega), UInt8.ofNat_toNat]
    exact List.mem_singleton_self _

end Separated

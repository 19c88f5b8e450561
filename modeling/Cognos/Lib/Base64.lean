/-
# `Cognos.Lib.Base64` — URL-safe base64 without padding, and its lax reader

Two readers of one alphabet.  `decode` is the strict one (`URL_SAFE_NO_PAD` of the
`base64` crate): only the alphabet, no padding, and the bits that no byte takes are zero.
`laxDecode` is Python's `urlsafe_b64decode`, which skips what is not in either alphabet,
stops at a padding that completes a group, and drops bits that are left over.

    decode_encode         the strict reader reads what was written
    laxDecode_of_decode   what the strict reader reads, the lax one reads the same
-/
import Mathlib

namespace Base64

/-! ## The alphabet -/

def urlChar (n : Nat) : Char :=
  if n < 26 then Char.ofNat (65 + n)
  else if n < 52 then Char.ofNat (71 + n)
  else if n < 62 then Char.ofNat (n - 4)
  else if n = 62 then '-' else '_'

/-- Letters and digits, the same in both alphabets. -/
def alnumValue (c : Char) : Option Nat :=
  if 'A' ≤ c ∧ c ≤ 'Z' then some (c.toNat - 65)
  else if 'a' ≤ c ∧ c ≤ 'z' then some (c.toNat - 71)
  else if '0' ≤ c ∧ c ≤ '9' then some (c.toNat + 4)
  else none

def urlValue (c : Char) : Option Nat :=
  if c = '-' then some 62 else if c = '_' then some 63 else alnumValue c

/-- The URL-safe alphabet and the standard one. -/
def laxValue (c : Char) : Option Nat :=
  if c = '+' then some 62 else if c = '/' then some 63 else urlValue c

theorem urlValue_urlChar : ∀ n < 64, urlValue (urlChar n) = some n := by
  decide

theorem urlChar_ne_dot : ∀ n < 64, urlChar n ≠ '.' := by
  decide

theorem alnumValue_some {c : Char} {n : Nat} (h : alnumValue c = some n) :
    c.toNat ≤ 127 ∧ c ≠ '=' ∧ c ≠ '+' ∧ c ≠ '/' := by
  have hle : ∀ a b : Char, a ≤ b ↔ a.toNat ≤ b.toNat := fun a b => Iff.rfl
  have hne : ∀ a : Char, c.toNat ≠ a.toNat → c ≠ a := fun a hc heq => hc (by rw [heq])
  simp only [alnumValue, hle] at h
  have hrange : (65 ≤ c.toNat ∧ c.toNat ≤ 90) ∨ (97 ≤ c.toNat ∧ c.toNat ≤ 122) ∨
      (48 ≤ c.toNat ∧ c.toNat ≤ 57) := by
    split at h
    · next hr => exact Or.inl hr
    · split at h
      · next hr => exact Or.inr (Or.inl hr)
      · split at h
        · next hr => exact Or.inr (Or.inr hr)
        · cases h
  have heq : '='.toNat = 61 := rfl
  have hplus : '+'.toNat = 43 := rfl
  have hslash : '/'.toNat = 47 := rfl
  exact ⟨by omega, hne _ (by omega), hne _ (by omega), hne _ (by omega)⟩

theorem urlValue_some {c : Char} {n : Nat} (h : urlValue c = some n) :
    c.toNat ≤ 127 ∧ c ≠ '=' ∧ laxValue c = some n := by
  have hcase : c = '-' ∨ c = '_' ∨ alnumValue c = some n := by
    unfold urlValue at h
    split at h
    · next hc => exact Or.inl hc
    · split at h
      · next hc => exact Or.inr (Or.inl hc)
      · exact Or.inr (Or.inr h)
  have hlax : c ≠ '+' → c ≠ '/' → laxValue c = some n := by
    intro hplus hslash
    rw [laxValue, if_neg hplus, if_neg hslash, h]
  rcases hcase with rfl | rfl | ha
  · exact ⟨by decide, by decide, hlax (by decide) (by decide)⟩
  · exact ⟨by decide, by decide, hlax (by decide) (by decide)⟩
  · obtain ⟨hlt, heq, hplus, hslash⟩ := alnumValue_some ha
    exact ⟨hlt, heq, hlax hplus hslash⟩

/-! ## Writing -/

/-- The three bytes of a group of four characters. -/
def byte1 (w x : Nat) : UInt8 := UInt8.ofNat (w * 4 + x / 16)

def byte2 (x y : Nat) : UInt8 := UInt8.ofNat (x % 16 * 16 + y / 4)

def byte3 (y z : Nat) : UInt8 := UInt8.ofNat (y % 4 * 64 + z)

def encode : List UInt8 → List Char
  | a :: b :: c :: bs =>
      urlChar (a.toNat / 4) :: urlChar (a.toNat % 4 * 16 + b.toNat / 16) ::
        urlChar (b.toNat % 16 * 4 + c.toNat / 64) :: urlChar (c.toNat % 64) :: encode bs
  | [a, b] =>
      [urlChar (a.toNat / 4), urlChar (a.toNat % 4 * 16 + b.toNat / 16),
        urlChar (b.toNat % 16 * 4)]
  | [a] => [urlChar (a.toNat / 4), urlChar (a.toNat % 4 * 16)]
  | [] => []

/-! ## Reading strictly -/

def decode : List Char → Option (List UInt8)
  | a :: b :: c :: d :: cs => do
      let w ← urlValue a
      let x ← urlValue b
      let y ← urlValue c
      let z ← urlValue d
      let bs ← decode cs
      some (byte1 w x :: byte2 x y :: byte3 y z :: bs)
  | [a, b, c] => do
      let w ← urlValue a
      let x ← urlValue b
      let y ← urlValue c
      if y % 4 = 0 then some [byte1 w x, byte2 x y] else none
  | [a, b] => do
      let w ← urlValue a
      let x ← urlValue b
      if x % 16 = 0 then some [byte1 w x] else none
  | [_] => none
  | [] => some []

theorem byte1_encode (a b : UInt8) : byte1 (a.toNat / 4) (a.toNat % 4 * 16 + b.toNat / 16) = a := by
  have ha := a.toNat_lt
  have hb := b.toNat_lt
  have heq : a.toNat / 4 * 4 + (a.toNat % 4 * 16 + b.toNat / 16) / 16 = a.toNat := by omega
  rw [byte1, heq, UInt8.ofNat_toNat]

theorem byte1_encode_last (a : UInt8) : byte1 (a.toNat / 4) (a.toNat % 4 * 16) = a := by
  have heq : a.toNat / 4 * 4 + a.toNat % 4 * 16 / 16 = a.toNat := by omega
  rw [byte1, heq, UInt8.ofNat_toNat]

theorem byte2_encode (n : Nat) (b c : UInt8) :
    byte2 (n * 16 + b.toNat / 16) (b.toNat % 16 * 4 + c.toNat / 64) = b := by
  have hb := b.toNat_lt
  have hc := c.toNat_lt
  have heq : (n * 16 + b.toNat / 16) % 16 * 16 + (b.toNat % 16 * 4 + c.toNat / 64) / 4
      = b.toNat := by omega
  rw [byte2, heq, UInt8.ofNat_toNat]

theorem byte2_encode_last (n : Nat) (b : UInt8) :
    byte2 (n * 16 + b.toNat / 16) (b.toNat % 16 * 4) = b := by
  have hb := b.toNat_lt
  have heq : (n * 16 + b.toNat / 16) % 16 * 16 + b.toNat % 16 * 4 / 4 = b.toNat := by omega
  rw [byte2, heq, UInt8.ofNat_toNat]

theorem byte3_encode (n : Nat) (c : UInt8) :
    byte3 (n * 4 + c.toNat / 64) (c.toNat % 64) = c := by
  have hc := c.toNat_lt
  have heq : (n * 4 + c.toNat / 64) % 4 * 64 + c.toNat % 64 = c.toNat := by omega
  rw [byte3, heq, UInt8.ofNat_toNat]

theorem decode_encode (bs : List UInt8) : decode (encode bs) = some bs := by
  induction bs using encode.induct with
  | case1 a b c bs ih =>
      have ha := a.toNat_lt
      have hb := b.toNat_lt
      have hc := c.toNat_lt
      rw [encode, decode, urlValue_urlChar _ (by omega), urlValue_urlChar _ (by omega),
        urlValue_urlChar _ (by omega), urlValue_urlChar _ (by omega), ih]
      simp only [Option.bind_eq_bind, Option.bind_some, byte1_encode, byte2_encode, byte3_encode]
  | case2 a b =>
      have ha := a.toNat_lt
      have hb := b.toNat_lt
      have hzero : b.toNat % 16 * 4 % 4 = 0 := by omega
      rw [encode, decode, urlValue_urlChar _ (by omega), urlValue_urlChar _ (by omega),
        urlValue_urlChar _ (by omega)]
      simp only [Option.bind_eq_bind, Option.bind_some, hzero, if_true, byte1_encode,
        byte2_encode_last]
  | case3 a =>
      have ha := a.toNat_lt
      have hzero : a.toNat % 4 * 16 % 16 = 0 := by omega
      rw [encode, decode, urlValue_urlChar _ (by omega), urlValue_urlChar _ (by omega)]
      simp only [Option.bind_eq_bind, Option.bind_some, hzero, if_true, byte1_encode_last]
  | case4 => rfl

theorem dot_notMem_encode (bs : List UInt8) : '.' ∉ encode bs := by
  induction bs using encode.induct with
  | case1 a b c bs ih =>
      have ha := a.toNat_lt
      have hb := b.toNat_lt
      have hc := c.toNat_lt
      simp only [encode, List.mem_cons, not_or]
      exact ⟨(urlChar_ne_dot _ (by omega)).symm, (urlChar_ne_dot _ (by omega)).symm,
        (urlChar_ne_dot _ (by omega)).symm, (urlChar_ne_dot _ (by omega)).symm, ih⟩
  | case2 a b =>
      have ha := a.toNat_lt
      have hb := b.toNat_lt
      simp only [encode, List.mem_cons, List.not_mem_nil, or_false, not_or]
      exact ⟨(urlChar_ne_dot _ (by omega)).symm, (urlChar_ne_dot _ (by omega)).symm,
        (urlChar_ne_dot _ (by omega)).symm⟩
  | case3 a =>
      have ha := a.toNat_lt
      simp only [encode, List.mem_cons, List.not_mem_nil, or_false, not_or]
      exact ⟨(urlChar_ne_dot _ (by omega)).symm, (urlChar_ne_dot _ (by omega)).symm⟩
  | case4 => exact List.not_mem_nil

/-! ## Reading laxly -/

/-- `binascii.a2b_base64`, not strict: how many characters of a group were read, the bits of
them that are left, and the padding since. -/
def lax : Nat → Nat → Nat → List Char → Option (List UInt8)
  | quad, _, _, [] => if quad = 0 then some [] else none
  | quad, left, pads, c :: cs =>
      if c = '=' then
        if 2 ≤ quad then
          -- the group is complete: nothing behind it is read
          if 4 ≤ quad + (pads + 1) then some [] else lax quad left (pads + 1) cs
        else lax quad left pads cs
      else
        match laxValue c, quad with
        | none, _ => lax quad left pads cs
        | some v, 0 => lax 1 v 0 cs
        | some v, 1 => (lax 2 (v % 16) 0 cs).map (UInt8.ofNat (left * 4 + v / 16) :: ·)
        | some v, 2 => (lax 3 (v % 4) 0 cs).map (UInt8.ofNat (left * 16 + v / 4) :: ·)
        | some v, _ => (lax 0 0 0 cs).map (UInt8.ofNat (left * 64 + v) :: ·)

/-- The padding that is missing. -/
def padding (n : Nat) : List Char := List.replicate ((4 - n % 4) % 4) '='

def isAscii (c : Char) : Bool := decide (c.toNat ≤ 127)

/-- `base64.urlsafe_b64decode(s + "=" * (-len(s) % 4))`. -/
def laxDecode (cs : List Char) : Option (List UInt8) :=
  if cs.all isAscii then lax 0 0 0 (cs ++ padding cs.length) else none

theorem lax_value {quad left pads v : Nat} {c : Char} {cs : List Char}
    (h : urlValue c = some v) :
    lax quad left pads (c :: cs) =
      match quad with
      | 0 => lax 1 v 0 cs
      | 1 => (lax 2 (v % 16) 0 cs).map (UInt8.ofNat (left * 4 + v / 16) :: ·)
      | 2 => (lax 3 (v % 4) 0 cs).map (UInt8.ofNat (left * 16 + v / 4) :: ·)
      | _ => (lax 0 0 0 cs).map (UInt8.ofNat (left * 64 + v) :: ·) := by
  obtain ⟨-, hne, hlax⟩ := urlValue_some h
  rcases quad with _ | _ | _ | quad <;> simp only [lax, if_neg hne, hlax]

/-- A group of four, read laxly. -/
theorem lax_group {w x y z : Nat} {a b c d : Char} {cs : List Char} (ha : urlValue a = some w)
    (hb : urlValue b = some x) (hc : urlValue c = some y) (hd : urlValue d = some z) :
    lax 0 0 0 (a :: b :: c :: d :: cs) =
      (lax 0 0 0 cs).map (byte1 w x :: byte2 x y :: byte3 y z :: ·) := by
  simp only [lax_value ha, lax_value hb, lax_value hc, lax_value hd, Option.map_map]
  rfl

theorem lax_padded {cs : List Char} {bs : List UInt8} (h : decode cs = some bs) :
    lax 0 0 0 (cs ++ padding cs.length) = some bs := by
  induction cs using decode.induct generalizing bs with
  | case1 a b c d cs ih =>
      simp only [decode, Option.bind_eq_bind, Option.bind_eq_some_iff, Option.some.injEq] at h
      obtain ⟨w, ha, x, hb, y, hc, z, hd, bs', hbs, rfl⟩ := h
      have hpad : padding (a :: b :: c :: d :: cs).length = padding cs.length := by
        simp only [padding, List.length_cons, Nat.add_assoc, Nat.add_mod_right]
      rw [hpad]
      simp only [List.cons_append, lax_group ha hb hc hd, ih hbs, Option.map_some]
  | case2 a b c =>
      simp only [decode, Option.bind_eq_bind, Option.bind_eq_some_iff] at h
      obtain ⟨w, ha, x, hb, y, hc, h⟩ := h
      split at h
      · cases h
        simp only [padding, List.length_cons, List.length_nil, List.cons_append,
          List.nil_append, lax_value ha, lax_value hb, lax_value hc]
        rfl
      · cases h
  | case3 a b =>
      simp only [decode, Option.bind_eq_bind, Option.bind_eq_some_iff] at h
      obtain ⟨w, ha, x, hb, h⟩ := h
      split at h
      · cases h
        simp only [padding, List.length_cons, List.length_nil, List.cons_append,
          List.nil_append, lax_value ha, lax_value hb]
        rfl
      · cases h
  | case4 a => cases h
  | case5 =>
      cases h
      rfl

theorem ascii_of_decode {cs : List Char} {bs : List UInt8} (h : decode cs = some bs) :
    ∀ c ∈ cs, isAscii c = true := by
  have hascii : ∀ {c n}, urlValue c = some n → isAscii c = true := fun hc =>
    decide_eq_true (urlValue_some hc).1
  induction cs using decode.induct generalizing bs with
  | case1 a b c d cs ih =>
      simp only [decode, Option.bind_eq_bind, Option.bind_eq_some_iff] at h
      obtain ⟨w, ha, x, hb, y, hc, z, hd, bs', hbs, -⟩ := h
      simp only [List.forall_mem_cons]
      exact ⟨hascii ha, hascii hb, hascii hc,
        hascii hd, ih hbs⟩
  | case2 a b c =>
      simp only [decode, Option.bind_eq_bind, Option.bind_eq_some_iff] at h
      obtain ⟨w, ha, x, hb, y, hc, -⟩ := h
      simp only [List.forall_mem_cons]
      exact ⟨hascii ha, hascii hb, hascii hc,
        fun c hc => absurd hc List.not_mem_nil⟩
  | case3 a b =>
      simp only [decode, Option.bind_eq_bind, Option.bind_eq_some_iff] at h
      obtain ⟨w, ha, x, hb, -⟩ := h
      simp only [List.forall_mem_cons]
      exact ⟨hascii ha, hascii hb,
        fun c hc => absurd hc List.not_mem_nil⟩
  | case4 a => cases h
  | case5 => exact fun c hc => absurd hc List.not_mem_nil

/-- What the strict reader reads, the lax one reads the same. -/
theorem laxDecode_of_decode {cs : List Char} {bs : List UInt8} (h : decode cs = some bs) :
    laxDecode cs = some bs := by
  rw [laxDecode, if_pos (List.all_eq_true.mpr (ascii_of_decode h)), lax_padded h]

example : laxDecode ['Q', 'R', '='] = some [65] ∧ decode ['Q', 'R'] = none := by decide

end Base64

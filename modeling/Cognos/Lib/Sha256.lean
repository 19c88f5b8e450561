/-
# `Cognos.Lib.Sha256` — digests and their hexadecimal text

SHA-256 is a function from bytes to 32 bytes; nothing else about it is used except where
a theorem says so.  Programs pass digests on as hexadecimal text (`hex::encode`), which
is 64 characters and gives the digest back.
-/
import Mathlib
import Cognos.Lib.Text

/-! ## Hexadecimal text -/

namespace Hex

/-- The two digits of a byte. -/
def encodeByte (b : UInt8) : List Char :=
  [Text.hexDigit (b.toNat / 16), Text.hexDigit (b.toNat % 16)]

/-- `hex::encode(bs)`. -/
def encode (bs : List UInt8) : String := String.ofList (bs.flatMap encodeByte)

/-- The byte of two digits. -/
def decodeByte (a b : Char) : Option UInt8 :=
  match Text.hexValue a, Text.hexValue b with
  | some x, some y => some (UInt8.ofNat (16 * x + y))
  | _, _ => none

/-- The bytes of a text of digits. -/
def decodeChars : List Char → Option (List UInt8)
  | a :: b :: cs =>
      match decodeByte a b, decodeChars cs with
      | some x, some xs => some (x :: xs)
      | _, _ => none
  | [] => some []
  | [_] => none

theorem decodeChars_encode (bs : List UInt8) :
    decodeChars (bs.flatMap encodeByte) = some bs := by
  induction bs with
  | nil => rfl
  | cons b bs ih =>
      have hlt := b.toNat_lt
      have hhi : Text.hexValue (Text.hexDigit (b.toNat / 16)) = some (b.toNat / 16) :=
        Text.hexValue_hexDigit (by omega)
      have hlo : Text.hexValue (Text.hexDigit (b.toNat % 16)) = some (b.toNat % 16) :=
        Text.hexValue_hexDigit (by omega)
      have hbyte : UInt8.ofNat (16 * (b.toNat / 16) + b.toNat % 16) = b := by
        rw [Nat.div_add_mod]
        exact UInt8.ofNat_toNat
      simp [encodeByte, decodeChars, decodeByte, hhi, hlo, hbyte, ih]

theorem encode_injective : Function.Injective encode := by
  intro as bs h
  have hchars : as.flatMap encodeByte = bs.flatMap encodeByte := String.ofList_injective h
  have has := decodeChars_encode as
  rw [hchars, decodeChars_encode] at has
  exact (Option.some.inj has).symm

theorem length_encode (bs : List UInt8) : (encode bs).toList.length = 2 * bs.length := by
  rw [encode, String.toList_ofList]
  induction bs with
  | nil => rfl
  | cons b bs ih =>
      rw [List.flatMap_cons, List.length_append, ih, List.length_cons]
      simp only [encodeByte, List.length_cons, List.length_nil]
      omega

theorem not_isWhitespace_of_mem {bs : List UInt8} {c : Char} (h : c ∈ (encode bs).toList) :
    Text.isWhitespace c = false := by
  have hdigit : ∀ n < 16, Text.isWhitespace (Text.hexDigit n) = false := by decide
  rw [encode, String.toList_ofList] at h
  obtain ⟨b, -, hc⟩ := List.mem_flatMap.mp h
  have hlt := b.toNat_lt
  rcases List.mem_cons.mp hc with rfl | hc
  · exact hdigit _ (by omega)
  · rw [List.mem_singleton.mp hc]
    exact hdigit _ (by omega)

end Hex

/-! ## SHA-256 -/

/-- A function with digests of 32 bytes. -/
structure Sha256 where
  digest : List UInt8 → List UInt8
  length_digest : ∀ bs, (digest bs).length = 32

namespace Sha256

variable (H : Sha256)

/-- `hex::encode(Sha256::digest(bs))`. -/
def hex (bs : List UInt8) : String := Hex.encode (H.digest bs)

theorem length_hex (bs : List UInt8) : (H.hex bs).toList.length = 64 := by
  rw [hex, Hex.length_encode, H.length_digest]

theorem digest_eq_of_hex_eq {as bs : List UInt8} (h : H.hex as = H.hex bs) :
    H.digest as = H.digest bs :=
  Hex.encode_injective h

/-- A digest's text is not blank. -/
theorem trim_hex_ne (bs : List UInt8) : Text.trim (H.hex bs) ≠ "" := by
  have hne : (H.hex bs).toList ≠ [] := by
    intro hnil
    have hlen := H.length_hex bs
    rw [hnil] at hlen
    cases hlen
  obtain ⟨c, hc⟩ := List.exists_mem_of_ne_nil _ hne
  exact Text.trim_ne_empty hc (Hex.not_isWhitespace_of_mem hc)

/-- 32 bytes, high byte first. -/
def bytes32 (n : Nat) : List UInt8 := (List.range 32).map fun i => UInt8.ofNat (n / 256 ^ (31 - i))

/-- The function with these digests of texts; what is not text has the digest 0. -/
def ofText (f : String → Nat) : Sha256 where
  digest bs := bytes32 (((Text.fromUtf8? bs).map f).getD 0)
  length_digest bs := by rw [bytes32, List.length_map, List.length_range]

theorem hex_ofText (f : String → Nat) (s : String) :
    (ofText f).hex (Text.bytes s) = Hex.encode (bytes32 (f s)) := by
  show Hex.encode (bytes32 (((Text.fromUtf8? (Text.bytes s)).map f).getD 0)) = _
  rw [Text.fromUtf8?_bytes, Option.map_some, Option.getD_some]

end Sha256

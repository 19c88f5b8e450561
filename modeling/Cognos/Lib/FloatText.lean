/-
# `Cognos.Lib.FloatText` — widening a float and writing it with two decimals

Lean's `Float32` and `Float` compute as IEEE 754 binary32 and binary64 do.  Two
operations of Rust are added: `x as f64`, which loses nothing, and `{:.2}`, which
rounds the exact value of the number, a tie to the even digit.
-/
import Mathlib

namespace FloatText

open Float.Model (Format UnpackedFloat)

/-- `x as f64`. -/
def widen (x : Float32) : Float :=
  .ofModel (.pack (match x.toModel.unpack with
    | .finite s m e _ => .round Format.binary64 s m e
    | u => u))

/-- `num / den` to the nearest integer, a tie to the even one. -/
def divRound (num den : Nat) : Nat :=
  let q := num / den
  let r := num % den
  if 2 * r < den then q else if den < 2 * r then q + 1 else q + q % 2

/-- A number of hundredths. -/
def hundredths (n : Nat) : String :=
  toString (n / 100) ++ "." ++ (if n % 100 < 10 then "0" else "") ++ toString (n % 100)

def signText : UnpackedFloat.Sign → String
  | .negative => "-"
  | .positive => ""

/-- `format!("{:.2}", x)`. -/
def fixed2 (x : Float) : String :=
  match x.toModel.unpack with
  | .notANumber => "NaN"
  | .infinity s => signText s ++ "inf"
  | .zero s => signText s ++ "0.00"
  | .finite s m e _ =>
      signText s ++ hundredths
        (if 0 ≤ e then 100 * m * 2 ^ e.toNat else divRound (100 * m) (2 ^ (-e).toNat))

example : fixed2 (widen 0.85) = "0.85" := by decide

end FloatText

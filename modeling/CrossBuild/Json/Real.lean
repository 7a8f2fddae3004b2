import CrossBuild.Json.Basic

/-!
# Numbers with a fraction

A number written with a fraction or an exponent means the nearest 64-bit binary number. This module
finds out whether that number is a whole one.
-/

namespace CrossBuild.Json.Real

/-- How many decimal digits a positive number has. -/
def decimalDigits (n : Nat) : Nat :=
  (Nat.toDigits 10 n).length

/-- The binary number nearest to `mantissa * 10 ^ exponent`. Far outside the range of binary numbers
the answer is known from the number of digits alone. -/
def nearest (mantissa : Nat) (exponent : Int) : Float :=
  let magnitude := exponent + decimalDigits mantissa
  if mantissa = 0 ∨ magnitude < -400 then 0.0
  else if magnitude > 400 then 1.0 / 0.0
  else Float.ofScientific mantissa (exponent < 0) exponent.natAbs

/-- Whether a number is whole, and which whole number it is. -/
inductive Wholeness
  | whole (n : Int)
  | fractional
  | notFinite
  deriving DecidableEq, Repr

/-- The bit above the fraction, which is not written but counts. -/
def hiddenBit : Nat := 0x10000000000000

/-- The wholeness of the binary number with the given sign and bits: the value is the mantissa
times a power of two. -/
def wholenessOfBits (negative : Bool) (bits : Nat) : Wholeness :=
  let exponentField := (bits >>> 52) % 2048
  let fraction := bits % hiddenBit
  if exponentField = 2047 then .notFinite
  else
    let mantissa := if exponentField = 0 then fraction else fraction + hiddenBit
    let shift := max exponentField 1
    let signed (n : Nat) : Int := if negative then -n else n
    if 1075 ≤ shift then .whole (signed (mantissa <<< (shift - 1075)))
    else
      let whole := mantissa >>> (1075 - shift)
      if whole <<< (1075 - shift) = mantissa then .whole (signed whole) else .fractional

/-- The wholeness of a number. -/
def wholeness : Json.Real → Wholeness
  | .decimal mantissa exponent =>
    wholenessOfBits (mantissa < 0) (nearest mantissa.natAbs exponent).toBits.toNat
  | .infinity _ => .notFinite
  | .nan => .notFinite

end CrossBuild.Json.Real

import Mathlib.Data.Int.Log
import CamelidEnterprise.Foundation.Rounding

/-!
# Binary interchange formats

A float of an interchange format is a word: a sign bit, a biased exponent and a
trailing significand. `Format.round` is the word of the number nearest to
`m * 2 ^ k`, ties to even; the conversions between formats and from integers are
it, applied to what the other word stands for.
-/

namespace Foundation

/-- The widths of a format's two fields under the sign bit. -/
structure Format where
  mantissaBits : Nat
  exponentBits : Nat

namespace Format

def single : Format := ⟨23, 8⟩

def double : Format := ⟨52, 11⟩

/-- The sign bit, as the number it adds to a word. -/
def signBit (fmt : Format) : Nat := 2 ^ (fmt.mantissaBits + fmt.exponentBits)

/-- The word of positive infinity: all exponent bits, no mantissa. -/
def infinity (fmt : Format) : Nat := (2 ^ fmt.exponentBits - 1) * 2 ^ fmt.mantissaBits

/-- The exponent of the last place of the smallest numbers. -/
def minExponent (fmt : Format) : Int := 2 - 2 ^ (fmt.exponentBits - 1) - fmt.mantissaBits

def isNegative (fmt : Format) (word : Nat) : Bool := word / fmt.signBit % 2 = 1

/-- The word without its sign. -/
def magnitude (fmt : Format) (word : Nat) : Nat := word % fmt.signBit

/-- `is_finite` -/
def isFinite (fmt : Format) (word : Nat) : Bool := fmt.magnitude word < fmt.infinity

/-- A finite magnitude as an integer and the exponent of its last place. -/
def significand (fmt : Format) (magnitude : Nat) : Nat × Int :=
  let exponent := magnitude / 2 ^ fmt.mantissaBits
  let mantissa := magnitude % 2 ^ fmt.mantissaBits
  if exponent = 0 then (mantissa, fmt.minExponent)
  else (mantissa + 2 ^ fmt.mantissaBits, fmt.minExponent + exponent - 1)

/-- The magnitude nearest to `m * 2 ^ k`; infinity where the format ends. -/
def round (fmt : Format) (m : Nat) (k : Int) : Nat :=
  if m = 0 then 0
  else
    let ulp := max (Nat.log 2 m + k - fmt.mantissaBits) fmt.minExponent
    let places := (Rounding.roundHalfEven (m * 2 ^ (k - ulp))).toNat
    min ((ulp - fmt.minExponent).toNat * 2 ^ fmt.mantissaBits + places) fmt.infinity

/-- A word with this sign and this magnitude. -/
def withSign (fmt : Format) (negative : Bool) (magnitude : Nat) : Nat :=
  (if negative then fmt.signBit else 0) + magnitude

/-- The number nearest to an integer. -/
def ofInt (fmt : Format) (value : Int) : Nat :=
  fmt.withSign (decide (value < 0)) (fmt.round value.natAbs 0)

/-- Conversion to another format. A NaN keeps the leading bits of its payload and
is made quiet. -/
def convert (source target : Format) (word : Nat) : Nat :=
  let magnitude := source.magnitude word
  target.withSign (source.isNegative word) <|
    if magnitude < source.infinity then
      let (m, k) := source.significand magnitude
      target.round m k
    else if magnitude = source.infinity then target.infinity
    else
      let payload := magnitude % 2 ^ source.mantissaBits / 2 ^ (source.mantissaBits - target.mantissaBits)
      target.infinity + (payload ||| 2 ^ (target.mantissaBits - 1))

/-- The natural number a word stands for, when it stands for one. -/
def toNat? (fmt : Format) (word : Nat) : Option Nat :=
  let magnitude := fmt.magnitude word
  if magnitude = 0 then some 0
  else if fmt.isNegative word || fmt.infinity ≤ magnitude then none
  else
    match fmt.significand magnitude with
    | (m, .ofNat k) => some (m * 2 ^ k)
    | (m, .negSucc k) => if m % 2 ^ (k + 1) = 0 then some (m / 2 ^ (k + 1)) else none

end Format

example : Format.single.ofInt 500000 = 0x48f42400 := by decide +kernel

end Foundation

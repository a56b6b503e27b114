import CamelidEnterprise.Foundation.Single
import CamelidEnterprise.Engine.Gguf

/-!
# Camelid Enterprise — half precision

`f32_to_f16_bits` and `f16_bits_to_f32` of `crates/engine-core/src/tensor/blocks.rs`, on
the bits of both formats. `Engine/HalfPrecision.lean` says what they compute.
-/

namespace CamelidEnterprise

open Foundation

/-- The loop that gives a subnormal half its leading bit, at most ten places up. -/
def normalizeHalf : Nat → UInt32 → Int → UInt32 × Int
  | 0, mant, e => (mant, e)
  | fuel + 1, mant, e =>
    if mant &&& 0x0400 = 0 then normalizeHalf fuel (mant <<< 1) (e - 1) else (mant, e)

/-- `f32_to_f16_bits` -/
def f32ToF16Bits (value : F32) : UInt16 :=
  let bits := value.bits
  let sign := (bits >>> 16).toUInt16 &&& 0x8000
  let exp : Int := ((bits >>> 23) &&& 0xff).toNat
  let frac := bits &&& 0x007fffff
  let halfExp := exp - 127 + 15
  if exp = 0xff then
    let nan : UInt16 := if frac ≠ 0 then (0x0200 : UInt16) ||| ((frac >>> 13).toUInt16 &&& 0x03ff) else 0
    sign ||| 0x7c00 ||| nan
  else if halfExp ≥ 0x1f then sign ||| 0x7c00
  else if halfExp < -10 then sign
  else if halfExp ≤ 0 then
    let mant := frac ||| 0x00800000
    let shift := UInt32.ofNat (14 - halfExp).toNat
    let half := (mant >>> shift).toUInt16
    let rem := mant &&& ((1 <<< shift) - 1)
    let halfway : UInt32 := 1 <<< (shift - 1)
    sign ||| (if rem > halfway ∨ (rem = halfway ∧ half &&& 1 = 1) then half + 1 else half)
  else
    let half := (UInt32.ofNat halfExp.toNat <<< 10) ||| (frac >>> 13)
    let rem := frac &&& 0x1fff
    let half := if rem > 0x1000 ∨ (rem = 0x1000 ∧ half &&& 1 = 1) then half + 1 else half
    sign ||| half.toUInt16

/-- `f16_bits_to_f32` -/
def f16BitsToF32 (bits : UInt16) : F32 :=
  let sign := (bits &&& 0x8000).toUInt32 <<< 16
  let exp := (bits &&& 0x7c00) >>> 10
  let frac := (bits &&& 0x03ff).toUInt32
  let out : UInt32 :=
    if exp = 0 then
      if frac = 0 then sign
      else
        let (mant, e) := normalizeHalf 10 frac (-14)
        let exp32 := UInt32.ofNat (e + 127).toNat
        sign ||| (exp32 <<< 23) ||| ((mant &&& 0x03ff) <<< 13)
    else if exp = 0x1f then sign ||| (0x7f800000 : UInt32) ||| (frac <<< 13)
    else
      let exp32 := exp.toUInt32 + 112
      sign ||| (exp32 <<< 23) ||| (frac <<< 13)
  ⟨out⟩

end CamelidEnterprise

import CamelidEnterprise.Foundation.Binary
import CamelidEnterprise.Foundation.Word

/-!
# Single-precision floats

A float is its bits. What only moves bits or compares them is defined here, and so
are the conversions from and to integers; the operations that round and the
elementary functions are left open by `FloatOps`, so that what is proved holds for
any arithmetic and relies on nothing but the order in which it is used.
-/

namespace Foundation

/-- A single-precision float. -/
structure F32 where
  bits : UInt32
deriving DecidableEq, Repr

/-- The operations of floats that are left open, and how a float is printed. -/
class FloatOps where
  add : F32 → F32 → F32
  sub : F32 → F32 → F32
  mul : F32 → F32 → F32
  div : F32 → F32 → F32
  powf : F32 → F32 → F32
  max : F32 → F32 → F32
  min : F32 → F32 → F32
  sqrt : F32 → F32
  exp : F32 → F32
  ln : F32 → F32
  floor : F32 → F32
  ceil : F32 → F32
  round : F32 → F32
  sin : F32 → F32
  cos : F32 → F32
  display : F32 → String

namespace F32

instance [FloatOps] : Add F32 := ⟨FloatOps.add⟩

instance [FloatOps] : Sub F32 := ⟨FloatOps.sub⟩

instance [FloatOps] : Mul F32 := ⟨FloatOps.mul⟩

instance [FloatOps] : Div F32 := ⟨FloatOps.div⟩

-- ---------------------------------------------------------------------------
-- Bits
-- ---------------------------------------------------------------------------

instance : Neg F32 := ⟨fun x => ⟨x.bits ^^^ 0x80000000⟩⟩

def abs (x : F32) : F32 := ⟨x.bits &&& 0x7fffffff⟩

/-- `n as f32` for an integer. -/
def ofInt (n : Int) : F32 := ⟨UInt32.ofNat (Format.single.ofInt n)⟩

instance (n : Nat) : OfNat F32 n := ⟨ofInt n⟩

/-- `f32::NEG_INFINITY` -/
def negInfinity : F32 := ⟨0xff800000⟩

/-- `std::f32::consts::PI` -/
def pi : F32 := ⟨0x40490fdb⟩

/-- `x < y` -/
def lt (x y : F32) : Bool := Word.f32Lt x.bits y.bits

/-- `x == y` -/
def eq (x y : F32) : Bool := Word.f32Eq x.bits y.bits

/-- `x <= y` -/
def le (x y : F32) : Bool := x.lt y || x.eq y

def isFinite (x : F32) : Bool := x.bits.toNat % 2 ^ 31 < 0x7f800000

/-- `f32::clamp`: a NaN stays one. -/
def clamp (x low high : F32) : F32 :=
  let x := if x.lt low then low else x
  if high.lt x then high else x

/-- `x as i8`: towards zero, the nearest end out of range, zero of a NaN. -/
def toI8 (x : F32) : Int8 :=
  let magnitude := Format.single.magnitude x.bits.toNat
  if Format.single.infinity < magnitude then 0
  else
    let whole : Int :=
      if magnitude = Format.single.infinity then 128
      else
        match Format.single.significand magnitude with
        | (m, .ofNat k) => m * 2 ^ k
        | (m, .negSucc k) => (m / 2 ^ (k + 1) : Nat)
    let signed := if Format.single.isNegative x.bits.toNat then -whole else whole
    Int8.ofInt (Max.max (-128) (Min.min 127 signed))

-- ---------------------------------------------------------------------------
-- Sums
-- ---------------------------------------------------------------------------

/-- `iter().sum::<f32>()`, a left fold from negative zero. -/
def sum [FloatOps] (xs : List F32) : F32 := xs.foldl (· + ·) (-0)

end F32

example : (500000 : F32) = ⟨0x48f42400⟩ ∧ (-(0 : F32)).bits = 0x80000000 := by decide +kernel

example : (F32.ofInt (-4)).toI8 = -4 ∧ F32.negInfinity.toI8 = -128 := by decide +kernel

end Foundation

import CamelidEnterprise.Engine.Tensor
import CamelidEnterprise.Foundation.Extended

/-!
# Camelid Enterprise — what the quantizer asks of floats

`quantize_q8_0_block` of `crates/engine-core/src/tensor/q8_dot.rs` over any type of floats.
Over bit patterns it is the quantizer of the tensor layer; over extended numbers, where
multiplication, division and the trip through a half are left open, the accelerated ones of
`engine-macos` and `engine-windows` are compared with it.

* `quantizeQ8_0Block_bits` — the tensor layer's quantizer is this one.
* `quantize_extended` — over extended numbers: the greatest magnitude that is one, and the
  nearest byte of each scaled value.
-/

namespace CamelidEnterprise

open Foundation Foundation.Buffer

/-- The operations of the quantizer; `viaHalf x` is `f16_bits_to_f32(f32_to_f16_bits(x))`. -/
structure QuantizerFloats (F : Type) where
  ofNat : Nat → F
  neg : F → F
  abs : F → F
  max : F → F → F
  mul : F → F → F
  div : F → F → F
  eq : F → F → Bool
  round : F → F
  clamp : F → F → F → F
  toI8 : F → Int
  viaHalf : F → F

/-- `Q8_0Block` -/
@[ext]
structure Quantized (F : Type) where
  scale : F
  quants : Vector Int 32
deriving DecidableEq

namespace QuantizerFloats

variable {F : Type}

/-- The scale that is stored, and what the values are multiplied by. -/
def scales (m : QuantizerFloats F) (maxAbs : F) : F × F :=
  let unroundedScale := m.div maxAbs (m.ofNat 127)
  let scale := m.viaHalf unroundedScale
  let invScale := if m.eq unroundedScale (m.ofNat 0) then m.ofNat 0
    else m.div (m.ofNat 1) unroundedScale
  (scale, invScale)

/-- A value in `i8`. -/
def quant (m : QuantizerFloats F) (invScale value : F) : Int :=
  m.toI8 (m.clamp (m.round (m.mul value invScale)) (m.neg (m.ofNat 128)) (m.ofNat 127))

/-- `quantize_q8_0_block` -/
def quantize (m : QuantizerFloats F) (block : List F) : Quantized F :=
  let maxAbs := block.foldl (fun acc value => m.max acc (m.abs value)) (m.ofNat 0)
  let (scale, invScale) := m.scales maxAbs
  { scale := scale
    quants := Vector.ofFn fun i =>
      match block[i.val]? with
      | some value => m.quant invScale value
      | none => 0 }

end QuantizerFloats

namespace Quantizer

-- ---------------------------------------------------------------------------
-- Bit patterns
-- ---------------------------------------------------------------------------

/-- The floats of the tensor layer. -/
def bits [FloatOps] : QuantizerFloats F32 where
  ofNat n := F32.ofInt n
  neg x := -x
  abs := F32.abs
  max := FloatOps.max
  mul := FloatOps.mul
  div := FloatOps.div
  eq := F32.eq
  round := FloatOps.round
  clamp := F32.clamp
  toI8 x := x.toI8.toInt
  viaHalf x := f16BitsToF32 (f32ToF16Bits x)

/-- A block of the tensor layer. -/
def ofBlock (block : Q8_0Block) : Quantized F32 :=
  ⟨block.scale, Vector.ofFn fun i => (block.quants[i]).toInt⟩

/-- The tensor layer's quantizer is the one over bit patterns. -/
theorem quantizeQ8_0Block_bits [FloatOps] (block : List F32) :
    ofBlock (quantizeQ8_0Block block) = bits.quantize block := by
  refine Quantized.ext rfl (Vector.ext fun i hi => ?_)
  unfold ofBlock quantizeQ8_0Block QuantizerFloats.quantize
  dsimp only
  rw [Vector.getElem_ofFn, Vector.getElem_ofFn, Fin.getElem_fin, Vector.getElem_ofFn]
  rcases block[i]? with _ | value
  · rfl
  · rfl

-- ---------------------------------------------------------------------------
-- Extended numbers
-- ---------------------------------------------------------------------------

/-- What is left open of the arithmetic of extended numbers. -/
structure Arithmetic where
  mul : Extended → Extended → Extended
  div : Extended → Extended → Extended
  viaHalf : Extended → Extended

/-- An arithmetic of rationals that does not round. -/
def Arithmetic.rational : Arithmetic where
  mul
    | .number (x : ℚ), .number (y : ℚ) => Extended.rat (x * y)
    | _, _ => .nan
  div
    | .number (x : ℚ), .number (y : ℚ) => Extended.rat (x / y)
    | _, _ => .nan
  viaHalf x := x

/-- Extended numbers with this arithmetic. -/
def extended (a : Arithmetic) : QuantizerFloats Extended where
  ofNat n := Extended.rat n
  neg := Extended.neg
  abs := Extended.abs
  max := Extended.maximum
  mul := a.mul
  div := a.div
  eq := Extended.eq
  round := Extended.roundTo Extended.roundHalfAway
  clamp := Extended.clamp
  toI8 := Extended.toInt Extended.truncate 8
  viaHalf := a.viaHalf

/-- `.round().clamp(-128.0, 127.0) as i8` -/
def nearestByte (x : Extended) : Int :=
  Extended.toInt Extended.truncate 8
    (Extended.clamp (Extended.roundTo Extended.roundHalfAway x) (Extended.rat (-128 : Int))
      (Extended.rat (127 : Int)))

/-- The magnitudes of a block. -/
def magnitudes (block : Vector Extended 32) (i : Nat) : Extended := (peek block i).abs

theorem magnitudes_nonneg (block : Vector Extended 32) (i : Nat)
    (h : magnitudes block i ≠ .nan) : 0 ≤ (magnitudes block i).value := by
  unfold magnitudes at h ⊢
  generalize peek block i = value at h ⊢
  rcases value with _ | x
  · exact (h rfl).elim
  · exact Extended.magnitude_nonneg x

@[simp] theorem nearestByte_nan : nearestByte .nan = 0 := rfl

/-- The nearest byte to a number is that of the number between the bounds. -/
theorem nearestByte_number (x : WithBotTop ℚ) :
    ∃ q : ℚ, ((-128 : Int) : ℚ) ≤ q ∧ q ≤ ((127 : Int) : ℚ) ∧
      min (max x (WithBotTop.coe ((-128 : Int) : ℚ))) (WithBotTop.coe ((127 : Int) : ℚ)) =
        WithBotTop.coe q ∧
      nearestByte (.number x) = Extended.roundHalfAway q ∧
      (-128 ≤ Extended.roundHalfAway q ∧ Extended.roundHalfAway q ≤ 127) := by
  obtain ⟨q, hlow, hhigh, hq, hclamp⟩ :=
    Extended.clamp_roundHalfAway (show (-128 : Int) ≤ 127 by decide) x
  have hlow' := Extended.roundHalfAway_mono hlow
  have hhigh' := Extended.roundHalfAway_mono hhigh
  rw [Extended.roundHalfAway_intCast] at hlow' hhigh'
  refine ⟨q, hlow, hhigh, hq, ?_, hlow', hhigh'⟩
  unfold nearestByte
  rw [hclamp, Extended.toInt_rat, Extended.truncate_intCast]
  rw [Extended.truncate_intCast]
  exact ⟨hlow', Int.lt_of_le_sub_one hhigh'⟩

theorem nearestByte_range (x : Extended) : -128 ≤ nearestByte x ∧ nearestByte x ≤ 127 := by
  rcases x with _ | x
  · decide
  · obtain ⟨q, -, -, -, heq, hrange⟩ := nearestByte_number x
    rw [heq]
    exact hrange

/-- The quantizer over extended numbers. -/
theorem quantize_extended (a : Arithmetic) (block : Vector Extended 32) :
    (extended a).quantize block.toList =
      (let (scale, invScale) := (extended a).scales
        (.number (Extended.greatest (magnitudes block) (Finset.range 32)))
      ⟨scale, Lanes.reg 32 fun i => nearestByte (a.mul (peek block i) invScale)⟩) := by
  have hread : ∀ i < 32, block.toList[i]? = some (peek block i) := by
    intro i hi
    rw [peek_of_lt block hi, List.getElem?_eq_getElem (by simpa using hi)]
    simp
  have hmax : block.toList.foldl (fun acc value => Extended.maximum acc (Extended.abs value)) 0 =
      .number (Extended.greatest (magnitudes block) (Finset.range 32)) := by
    rw [Extended.foldl_maximum, Vector.length_toList]
    unfold Extended.greatest
    refine congrArg _ (congrArg _ (Finset.sup_congr rfl fun i hi => ?_))
    dsimp only
    rw [hread i (Finset.mem_range.mp hi)]
    rfl
  have hscales : (extended a).scales (block.toList.foldl
      (fun acc value => (extended a).max acc ((extended a).abs value)) ((extended a).ofNat 0)) =
      (extended a).scales (.number (Extended.greatest (magnitudes block) (Finset.range 32))) :=
    congrArg _ hmax
  unfold QuantizerFloats.quantize
  dsimp only
  rw [hscales]
  refine Quantized.ext rfl (congrArg Vector.ofFn (funext fun i => ?_))
  rw [hread i i.isLt]
  rfl

end Quantizer

end CamelidEnterprise

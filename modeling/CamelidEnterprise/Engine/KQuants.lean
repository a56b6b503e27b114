import CamelidEnterprise.Engine.Half
import CamelidEnterprise.Foundation.Buffer

/-!
# Camelid Enterprise — K-quant blocks

The super-blocks of 256 elements of `crates/engine-core/src/tensor/blocks.rs`: `from_bytes`
takes the fields of a block apart and `dequantize` writes its elements into a buffer. An
index out of its array, a shift by the width of its operand or more, and a sum or
difference that leaves its type is a fault.
-/

namespace CamelidEnterprise

open Foundation Foundation.Buffer Gguf

-- ---------------------------------------------------------------------------
-- Machine arithmetic
-- ---------------------------------------------------------------------------

/-- `lhs - rhs` of `i8`. -/
def subI8 (lhs rhs : Int8) : EngineResult Int8 :=
  if -128 ≤ lhs.toInt - rhs.toInt ∧ lhs.toInt - rhs.toInt < 128 then .ok (lhs - rhs)
  else .fault .overflow

/-- `lhs + rhs` of `u8`. -/
def addU8 (lhs rhs : UInt8) : EngineResult UInt8 :=
  if lhs.toNat + rhs.toNat < 256 then .ok (lhs + rhs) else .fault .overflow

/-- `value >> shift` of `u8`. -/
def shrU8 (value : UInt8) (shift : Nat) : EngineResult UInt8 :=
  if shift < 8 then .ok (value >>> .ofNat shift) else .fault .overflow

/-- `value >> shift` of `u16`. -/
def shrU16 (value : UInt16) (shift : Nat) : EngineResult UInt16 :=
  if shift < 16 then .ok (value >>> .ofNat shift) else .fault .overflow

/-- `u16::from_le_bytes([bytes[start], bytes[start + 1]])` -/
def u16At {n : Nat} (bytes : Vector UInt8 n) (start : Nat) : UInt16 :=
  .ofNat (Cursor.fromLeBytes [peek bytes start, peek bytes (start + 1)])

/-- `u32::from_le_bytes` of the four bytes from `start` on. -/
def u32At {n : Nat} (bytes : Vector UInt8 n) (start : Nat) : UInt32 :=
  .ofNat (Cursor.fromLeBytes
    [peek bytes start, peek bytes (start + 1), peek bytes (start + 2), peek bytes (start + 3)])

/-- `fast_f16_to_f32` -/
def fastF16ToF32 (bits : UInt16) : F32 :=
  let sign := (bits &&& 0x8000).toUInt32 <<< 16
  let exponent := (bits &&& 0x7c00).toUInt32 >>> 10
  let fraction := (bits &&& 0x03ff).toUInt32
  if exponent = 0 then
    if fraction = 0 then ⟨sign⟩ else f16BitsToF32 bits
  else if exponent = 0x1f then ⟨sign ||| (0x7f800000 : UInt32) ||| (fraction <<< 13)⟩
  else ⟨sign ||| ((exponent + 112) <<< 23) ||| (fraction <<< 13)⟩

variable [FloatOps]

-- ---------------------------------------------------------------------------
-- Q2_K and Q3_K
-- ---------------------------------------------------------------------------

/-- `for l in 0..16 { out[start + l] = value(l); }` -/
def fillSubBlock (start : Nat) (value : Nat → EngineResult F32) (out : Vector F32 256) :
    EngineResult (Vector F32 256) :=
  (List.range 16).foldlM (fun out l => do
    let v ← value l
    store out (start + l) v) out

/-- The loops of Q2_K and Q3_K: a sub-block is given the index of its scale, where its
values are and at which shift, and `state`, which changes from one group to the next. It
reads its scale, and then gives each element. -/
def dequantizeGroups {τ : Type} (next : τ → τ)
    (subBlock : (scaleIdx valueBase offset shift : Nat) → τ →
      EngineResult (Nat → EngineResult F32))
    (start : τ) (out : Vector F32 256) : EngineResult (Vector F32 256) := do
  let (out, _, _) ← (List.range 2).foldlM (fun (out, scaleIdx, state) superIdx => do
    let valueBase := superIdx * 32
    let outBase := superIdx * 128
    let (out, scaleIdx, state, _) ←
      (List.range 4).foldlM (fun (out, scaleIdx, state, shift) groupIdx => do
        let low ← subBlock scaleIdx valueBase 0 shift state
        let out ← fillSubBlock (outBase + groupIdx * 32) low out
        let high ← subBlock (scaleIdx + 1) valueBase 16 shift state
        let out ← fillSubBlock (outBase + groupIdx * 32 + 16) high out
        .ok (out, scaleIdx + 2, next state, shift + 2)) (out, scaleIdx, state, 0)
    .ok (out, scaleIdx, state)) (out, 0, start)
  .ok out

/-- `Q2KBlock` -/
structure Q2KBlock where
  scales : Vector UInt8 16
  values : Vector UInt8 64
  scaleBits : UInt16
  minBits : UInt16

namespace Q2KBlock

/-- `Q2KBlock::from_bytes` -/
def fromBytes (bytes : Vector UInt8 84) : Q2KBlock where
  scales := slice bytes 0 16
  values := slice bytes 16 64
  scaleBits := u16At bytes 80
  minBits := u16At bytes 82

/-- `scale_f32` -/
def scaleF32 (block : Q2KBlock) : F32 := fastF16ToF32 block.scaleBits

/-- `min_f32` -/
def minF32 (block : Q2KBlock) : F32 := fastF16ToF32 block.minBits

/-- The scale and the min of a sub-block, and then its elements. -/
def subBlock (block : Q2KBlock) (scaleIdx valueBase offset shift : Nat) (_ : Unit) :
    EngineResult (Nat → EngineResult F32) := do
  let scale ← index block.scales scaleIdx
  let d := block.scaleF32 * F32.ofInt (scale &&& 0x0f).toNat
  let dMin := block.minF32 * F32.ofInt (scale >>> 4).toNat
  .ok fun l => do
    let byte ← index block.values (valueBase + offset + l)
    let shifted ← shrU8 byte shift
    .ok (d * F32.ofInt (shifted &&& 3).toNat - dMin)

/-- `Q2KBlock::dequantize` -/
def dequantize (block : Q2KBlock) (out : Vector F32 256) : EngineResult (Vector F32 256) :=
  dequantizeGroups id block.subBlock () out

end Q2KBlock

/-- `Q3KBlock` -/
structure Q3KBlock where
  highBits : Vector UInt8 32
  values : Vector UInt8 64
  scales : Vector UInt8 12
  scaleBits : UInt16

namespace Q3KBlock

/-- `Q3KBlock::from_bytes` -/
def fromBytes (bytes : Vector UInt8 110) : Q3KBlock where
  highBits := slice bytes 0 32
  values := slice bytes 32 64
  scales := slice bytes 96 12
  scaleBits := u16At bytes 108

/-- `scale_f32` -/
def scaleF32 (block : Q3KBlock) : F32 := fastF16ToF32 block.scaleBits

/-- `KMASK1` -/
def kmask1 : UInt32 := 0x03030303

/-- `KMASK2` -/
def kmask2 : UInt32 := 0x0f0f0f0f

/-- The words of `expanded_scales`: nibbles of the first two words, under two bits each of
the third one. -/
def auxWord (nibbles tmp : UInt32) : UInt32 := (nibbles &&& kmask2) ||| ((tmp &&& kmask1) <<< 4)

/-- `expanded_scales` -/
def expandedScales (block : Q3KBlock) : Vector Int8 16 :=
  let aux0 := u32At block.scales 0
  let aux1 := u32At block.scales 4
  let tmp := u32At block.scales 8
  let aux : Vector UInt32 4 :=
    #v[auxWord aux0 tmp, auxWord aux1 (tmp >>> 2), auxWord (aux0 >>> 4) (tmp >>> 4),
      auxWord (aux1 >>> 4) (tmp >>> 6)]
  -- byte `i % 4` of the word, in little-endian order
  Vector.ofFn fun i =>
    (UInt8.ofNat ((peek aux (i / 4)).toNat / 256 ^ (i.val % 4) % 256)).toInt8

/-- The scale of a sub-block, and then its elements. -/
def subBlock (block : Q3KBlock) (scaleIdx valueBase offset shift : Nat) (highMask : UInt8) :
    EngineResult (Nat → EngineResult F32) := do
  let scale ← index block.expandedScales scaleIdx
  let scale ← subI8 scale 32
  let d := block.scaleF32 * F32.ofInt scale.toInt
  .ok fun l => do
    let highByte ← index block.highBits (offset + l)
    let high : Int8 := if highByte &&& highMask ≠ 0 then 0 else 4
    let byte ← index block.values (valueBase + offset + l)
    let shifted ← shrU8 byte shift
    let value ← subI8 (shifted &&& 3).toInt8 high
    .ok (d * F32.ofInt value.toInt)

/-- `Q3KBlock::dequantize` -/
def dequantize (block : Q3KBlock) (out : Vector F32 256) : EngineResult (Vector F32 256) :=
  dequantizeGroups (fun highMask : UInt8 => highMask <<< 1) block.subBlock 1 out

end Q3KBlock

-- ---------------------------------------------------------------------------
-- Q4_K and Q5_K
-- ---------------------------------------------------------------------------

/-- `q4_k_scale_min` -/
def q4KScaleMin (idx : Nat) (scales : Vector UInt8 12) : EngineResult (UInt8 × UInt8) :=
  if idx < 4 then do
    let scale ← index scales idx
    let min ← index scales (idx + 4)
    .ok (scale &&& 63, min &&& 63)
  else do
    let low ← index scales (idx + 4)
    let scaleHigh ← index scales (idx - 4)
    let minHigh ← index scales idx
    .ok
      ((low &&& (0x0f : UInt8)) ||| ((scaleHigh >>> 6) <<< 4), (low >>> 4) ||| ((minHigh >>> 6) <<< 4))

/-- The loops of Q4_K and Q5_K: `codes` takes the two elements apart that share a byte, and
`state` changes from one pair of sub-blocks to the next. -/
def dequantizePairs {τ : Type} (next : τ → τ) (d dMin : F32) (scales : Vector UInt8 12)
    (codes : (valueBase l : Nat) → τ → EngineResult (UInt8 × UInt8)) (start : τ)
    (out : Vector F32 256) : EngineResult (Vector F32 256) := do
  let (out, _) ← (List.range 4).foldlM (fun (out, state) pairIdx => do
    let (lowScale, lowMin) ← q4KScaleMin (pairIdx * 2) scales
    let (highScale, highMin) ← q4KScaleMin (pairIdx * 2 + 1) scales
    let lowScale := d * F32.ofInt lowScale.toNat
    let highScale := d * F32.ofInt highScale.toNat
    let lowMin := dMin * F32.ofInt lowMin.toNat
    let highMin := dMin * F32.ofInt highMin.toNat
    let valueBase := pairIdx * 32
    let outBase := pairIdx * 64
    let out ← (List.range 32).foldlM (fun out l => do
      let (low, high) ← codes valueBase l state
      let out ← store out (outBase + l) (lowScale * F32.ofInt low.toNat - lowMin)
      store out (outBase + 32 + l) (highScale * F32.ofInt high.toNat - highMin)) out
    .ok (out, next state)) (out, start)
  .ok out

/-- `Q4KBlock` -/
structure Q4KBlock where
  scaleBits : UInt16
  minBits : UInt16
  scales : Vector UInt8 12
  values : Vector UInt8 128

namespace Q4KBlock

/-- `Q4KBlock::from_bytes` -/
def fromBytes (bytes : Vector UInt8 144) : Q4KBlock where
  scaleBits := u16At bytes 0
  minBits := u16At bytes 2
  scales := slice bytes 4 12
  values := slice bytes 16 128

/-- `scale_f32` -/
def scaleF32 (block : Q4KBlock) : F32 := fastF16ToF32 block.scaleBits

/-- `min_f32` -/
def minF32 (block : Q4KBlock) : F32 := fastF16ToF32 block.minBits

/-- The two elements of a byte. -/
def codes (block : Q4KBlock) (valueBase l : Nat) (_ : Unit) : EngineResult (UInt8 × UInt8) := do
  let byte ← index block.values (valueBase + l)
  .ok (byte &&& 0x0f, byte >>> 4)

/-- `Q4KBlock::dequantize` -/
def dequantize (block : Q4KBlock) (out : Vector F32 256) : EngineResult (Vector F32 256) :=
  dequantizePairs id block.scaleF32 block.minF32 block.scales block.codes () out

end Q4KBlock

/-- `Q5KBlock` -/
structure Q5KBlock where
  scaleBits : UInt16
  minBits : UInt16
  scales : Vector UInt8 12
  highBits : Vector UInt8 32
  values : Vector UInt8 128

namespace Q5KBlock

/-- `Q5KBlock::from_bytes` -/
def fromBytes (bytes : Vector UInt8 176) : Q5KBlock where
  scaleBits := u16At bytes 0
  minBits := u16At bytes 2
  scales := slice bytes 4 12
  highBits := slice bytes 16 32
  values := slice bytes 48 128

/-- `scale_f32` -/
def scaleF32 (block : Q5KBlock) : F32 := fastF16ToF32 block.scaleBits

/-- `min_f32` -/
def minF32 (block : Q5KBlock) : F32 := fastF16ToF32 block.minBits

/-- The two elements of a byte, with their high bits under the masks `u1` and `u2`. -/
def codes (block : Q5KBlock) (valueBase l : Nat) (masks : UInt8 × UInt8) :
    EngineResult (UInt8 × UInt8) := do
  let byte ← index block.values (valueBase + l)
  let qh ← index block.highBits l
  let low ← addU8 (byte &&& 0x0f) (if qh &&& masks.1 ≠ 0 then 16 else 0)
  let high ← addU8 (byte >>> 4) (if qh &&& masks.2 ≠ 0 then 16 else 0)
  .ok (low, high)

/-- `Q5KBlock::dequantize` -/
def dequantize (block : Q5KBlock) (out : Vector F32 256) : EngineResult (Vector F32 256) :=
  dequantizePairs (fun masks : UInt8 × UInt8 => (masks.1 <<< 2, masks.2 <<< 2)) block.scaleF32
    block.minF32 block.scales block.codes (1, 2) out

end Q5KBlock

-- ---------------------------------------------------------------------------
-- Q6_K
-- ---------------------------------------------------------------------------

/-- `Q6KBlock` -/
structure Q6KBlock where
  ql : Vector UInt8 128
  qh : Vector UInt8 64
  scales : Vector Int8 16
  scaleBits : UInt16

namespace Q6KBlock

/-- `Q6KBlock::from_bytes` -/
def fromBytes (bytes : Vector UInt8 210) : Q6KBlock where
  ql := slice bytes 0 128
  qh := slice bytes 128 64
  scales := Vector.ofFn fun i => (peek bytes (192 + i)).toInt8
  scaleBits := u16At bytes 208

/-- `scale_f32` -/
def scaleF32 (block : Q6KBlock) : F32 := fastF16ToF32 block.scaleBits

/-- A nibble under two high bits, `((..) | ((qh & 0x03) << 4)) as i8 - 32`. -/
def code (nibble high : UInt8) : EngineResult Int8 :=
  subI8 (nibble ||| ((high &&& 0x03) <<< 4)).toInt8 32

/-- `out[idx] = d * self.scales[scale_idx] as f32 * q as f32;` -/
def storeElement (block : Q6KBlock) (scaleIdx : Nat) (q : Int8) (idx : Nat) (out : Vector F32 256) :
    EngineResult (Vector F32 256) := do
  let scale ← index block.scales scaleIdx
  store out idx (block.scaleF32 * F32.ofInt scale.toInt * F32.ofInt q.toInt)

/-- `Q6KBlock::dequantize` -/
def dequantize (block : Q6KBlock) (out : Vector F32 256) : EngineResult (Vector F32 256) := do
  let (out, _, _, _) ← (List.range 2).foldlM (fun (out, qlOffset, qhOffset, scaleOffset) step => do
    let n := step * 128
    let out ← (List.range 32).foldlM (fun out l => do
      let is := l / 16
      let qh ← index block.qh (qhOffset + l)
      let ql1 ← index block.ql (qlOffset + l)
      let ql2 ← index block.ql (qlOffset + l + 32)
      let q1 ← code (ql1 &&& 0x0f) qh
      let q2 ← code (ql2 &&& 0x0f) (qh >>> 2)
      let q3 ← code (ql1 >>> 4) (qh >>> 4)
      let q4 ← code (ql2 >>> 4) (qh >>> 6)
      let out ← block.storeElement (scaleOffset + is) q1 (n + l) out
      let out ← block.storeElement (scaleOffset + is + 2) q2 (n + l + 32) out
      let out ← block.storeElement (scaleOffset + is + 4) q3 (n + l + 64) out
      block.storeElement (scaleOffset + is + 6) q4 (n + l + 96) out) out
    .ok (out, qlOffset + 64, qhOffset + 32, scaleOffset + 8)) (out, 0, 0, 0)
  .ok out

end Q6KBlock

-- ---------------------------------------------------------------------------
-- IQ4_XS
-- ---------------------------------------------------------------------------

/-- `KVALUES_IQ4NL_I8` -/
def kvaluesIq4nlI8 : List Int :=
  [-127, -104, -83, -65, -49, -35, -22, -10, 1, 13, 25, 38, 53, 69, 89, 113]

/-- `KVALUES_IQ4NL` -/
def kvaluesIq4nl (code : Nat) : F32 := F32.ofInt (kvaluesIq4nlI8.getD code 0)

/-- `IQ4XSBlock` -/
structure IQ4XSBlock where
  d : UInt16
  scalesH : UInt16
  scalesL : Vector UInt8 4
  qs : Vector UInt8 128

namespace IQ4XSBlock

/-- `IQ4XSBlock::from_bytes` -/
def fromBytes (bytes : Vector UInt8 136) : IQ4XSBlock where
  d := u16At bytes 0
  scalesH := u16At bytes 2
  scalesL := slice bytes 4 4
  qs := slice bytes 8 128

/-- `scale_f32` -/
def scaleF32 (block : IQ4XSBlock) : F32 := fastF16ToF32 block.d

/-- `sub_block_scale_int`; the difference is one of `i32`. -/
def subBlockScaleInt (block : IQ4XSBlock) (ib : Nat) : EngineResult Int := do
  let byte ← index block.scalesL (ib / 2)
  let low ← shrU8 byte (4 * (ib % 2))
  let high ← shrU16 block.scalesH (2 * ib)
  .ok (((low &&& (0x0f : UInt8)) ||| ((high &&& 0x3).toUInt8 <<< 4)).toNat - 32)

/-- `sub_block_scale` -/
def subBlockScale (block : IQ4XSBlock) (ib : Nat) : EngineResult F32 := do
  let scale ← block.subBlockScaleInt ib
  .ok (block.scaleF32 * F32.ofInt scale)

/-- `IQ4XSBlock::dequantize` -/
def dequantize (block : IQ4XSBlock) (out : Vector F32 256) : EngineResult (Vector F32 256) :=
  (List.range 8).foldlM (fun out ib => do
    let dl ← block.subBlockScale ib
    let base := ib * 32
    (List.range 16).foldlM (fun out j => do
      let byte ← index block.qs (ib * 16 + j)
      let out ← store out (base + j) (dl * kvaluesIq4nl (byte &&& 0x0f).toNat)
      store out (base + j + 16) (dl * kvaluesIq4nl (byte >>> 4).toNat)) out) out

end IQ4XSBlock

end CamelidEnterprise

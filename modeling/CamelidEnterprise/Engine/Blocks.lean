import CamelidEnterprise.Engine.KQuantValues

/-!
# Camelid Enterprise — the decoders of a block

What the decoders of `crates/engine-core/src/tensor/blocks.rs` make of one block: the
blocks of 32 values, Q8_K, the ternary formats, and the formats of `Engine/KQuants.lean`.
A decoder takes the bytes of a block and gives the values that are appended for it. How
many they are comes from the buffers and the loops of each decoder, and not from the sizes
of the header: `Decodes` states both counts of a decoder, and the modules that size a
payload compare them with `TensorType::layout`.
-/

namespace CamelidEnterprise

open Foundation Foundation.Outcome Foundation.Buffer Foundation.Bits

/-- `bytes.try_into().unwrap()` -/
def blockOf (size : Nat) (bytes : List UInt8) : EngineResult (Vector UInt8 size) :=
  if h : bytes.length = size then .ok ⟨bytes.toArray, by simpa using h⟩ else .fault .panic

/-- `value >> shift` of `u32`. -/
def shrU32 (value : UInt32) (shift : Nat) : EngineResult UInt32 :=
  if shift < 32 then .ok (value >>> .ofNat shift) else .fault .overflow

/-- `for (idx, &byte) in self.values.iter().enumerate()`: the two elements of a byte are 16
places apart. -/
def unpackPairs {α : Type} (codes : Nat → UInt8 → EngineResult (α × α)) (values : Vector UInt8 16)
    (out : Vector α 32) : EngineResult (Vector α 32) :=
  (List.range 16).foldlM (fun out idx => do
    let byte ← index values idx
    let (low, high) ← codes idx byte
    let out ← store out idx low
    store out (idx + 16) high) out

/-- The high bits of the two elements of a byte. -/
def highBitPair (highBits : UInt32) (idx : Nat) : EngineResult (UInt8 × UInt8) := do
  let low ← shrU32 highBits idx
  let high ← shrU32 highBits (idx + 16)
  .ok ((low &&& 1).toUInt8 <<< 4, (high &&& 1).toUInt8 <<< 4)

variable [FloatOps]

-- ---------------------------------------------------------------------------
-- Blocks of 32 values
-- ---------------------------------------------------------------------------

/-- A block of `size` bytes, taken apart and unpacked to 32 codes: a value for each. -/
def decodeUnpacked {α β : Type} (size : Nat) (fromBytes : Vector UInt8 size → β)
    (unpackValues : β → EngineResult (Vector α 32)) (value : β → α → F32) (chunk : List UInt8) :
    EngineResult (List F32) := do
  let bytes ← blockOf size chunk
  let block := fromBytes bytes
  let values ← unpackValues block
  .ok (values.toList.map (value block))

/-- `Q4_0Block` -/
structure Q4_0Block where
  scaleBits : UInt16
  values : Vector UInt8 16

namespace Q4_0Block

/-- `Q4_0Block::from_bytes` -/
def fromBytes (bytes : Vector UInt8 18) : Q4_0Block where
  scaleBits := u16At bytes 0
  values := slice bytes 2 16

/-- `scale_f32` -/
def scaleF32 (block : Q4_0Block) : F32 := fastF16ToF32 block.scaleBits

/-- `unpack_values` -/
def unpackValues (block : Q4_0Block) : EngineResult (Vector Int8 32) :=
  unpackPairs (fun _ byte => do
    let low ← subI8 (byte &&& 0x0f).toInt8 8
    let high ← subI8 (byte >>> 4).toInt8 8
    .ok (low, high)) block.values (.replicate 32 0)

/-- The values that `decode_q4_0_tensor` appends for a block. -/
def decode : List UInt8 → EngineResult (List F32) :=
  decodeUnpacked 18 fromBytes unpackValues fun block val => F32.ofInt val.toInt * block.scaleF32

end Q4_0Block

/-- `Q4_1Block` -/
structure Q4_1Block where
  scaleBits : UInt16
  minBits : UInt16
  values : Vector UInt8 16

namespace Q4_1Block

/-- `Q4_1Block::from_bytes` -/
def fromBytes (bytes : Vector UInt8 20) : Q4_1Block where
  scaleBits := u16At bytes 0
  minBits := u16At bytes 2
  values := slice bytes 4 16

/-- `scale_f32` -/
def scaleF32 (block : Q4_1Block) : F32 := fastF16ToF32 block.scaleBits

/-- `min_f32` -/
def minF32 (block : Q4_1Block) : F32 := fastF16ToF32 block.minBits

/-- `unpack_values` -/
def unpackValues (block : Q4_1Block) : EngineResult (Vector UInt8 32) :=
  unpackPairs (fun _ byte => .ok (byte &&& 0x0f, byte >>> 4)) block.values (.replicate 32 0)

/-- The values that `decode_q4_1_tensor` appends for a block. -/
def decode : List UInt8 → EngineResult (List F32) :=
  decodeUnpacked 20 fromBytes unpackValues fun block val => F32.ofInt val.toNat * block.scaleF32 + block.minF32

end Q4_1Block

/-- `Q5_0Block` -/
structure Q5_0Block where
  scaleBits : UInt16
  highBits : UInt32
  values : Vector UInt8 16

namespace Q5_0Block

/-- `Q5_0Block::from_bytes` -/
def fromBytes (bytes : Vector UInt8 22) : Q5_0Block where
  scaleBits := u16At bytes 0
  highBits := u32At bytes 2
  values := slice bytes 6 16

/-- `scale_f32` -/
def scaleF32 (block : Q5_0Block) : F32 := fastF16ToF32 block.scaleBits

/-- `unpack_values` -/
def unpackValues (block : Q5_0Block) : EngineResult (Vector Int8 32) :=
  unpackPairs (fun idx byte => do
    let (lowHigh, highHigh) ← highBitPair block.highBits idx
    let low ← subI8 ((byte &&& 0x0f) ||| lowHigh).toInt8 16
    let high ← subI8 ((byte >>> 4) ||| highHigh).toInt8 16
    .ok (low, high)) block.values (.replicate 32 0)

/-- The values that `decode_q5_0_tensor` appends for a block. -/
def decode : List UInt8 → EngineResult (List F32) :=
  decodeUnpacked 22 fromBytes unpackValues fun block val => F32.ofInt val.toInt * block.scaleF32

end Q5_0Block

/-- `Q5_1Block` -/
structure Q5_1Block where
  scaleBits : UInt16
  minBits : UInt16
  highBits : UInt32
  values : Vector UInt8 16

namespace Q5_1Block

/-- `Q5_1Block::from_bytes`: a scale, a min, four bytes of high bits and 16 of nibbles. -/
def fromBytes (bytes : Vector UInt8 24) : Q5_1Block where
  scaleBits := u16At bytes 0
  minBits := u16At bytes 2
  highBits := u32At bytes 4
  values := slice bytes 8 16

/-- `scale_f32` -/
def scaleF32 (block : Q5_1Block) : F32 := fastF16ToF32 block.scaleBits

/-- `min_f32` -/
def minF32 (block : Q5_1Block) : F32 := fastF16ToF32 block.minBits

/-- `unpack_values` -/
def unpackValues (block : Q5_1Block) : EngineResult (Vector UInt8 32) :=
  unpackPairs (fun idx byte => do
    let (lowHigh, highHigh) ← highBitPair block.highBits idx
    .ok ((byte &&& 0x0f) ||| lowHigh, (byte >>> 4) ||| highHigh)) block.values (.replicate 32 0)

/-- The values that `decode_q5_1_tensor` appends for a block. -/
def decode : List UInt8 → EngineResult (List F32) :=
  decodeUnpacked 24 fromBytes unpackValues fun block val => F32.ofInt val.toNat * block.scaleF32 + block.minF32

end Q5_1Block

/-- `IQ4NLBlock` -/
structure IQ4NLBlock where
  d : UInt16
  qs : Vector UInt8 16

namespace IQ4NLBlock

/-- `IQ4NLBlock::from_bytes` -/
def fromBytes (bytes : Vector UInt8 18) : IQ4NLBlock where
  d := u16At bytes 0
  qs := slice bytes 2 16

/-- `scale_f32` -/
def scaleF32 (block : IQ4NLBlock) : F32 := fastF16ToF32 block.d

/-- `IQ4NLBlock::dequantize` -/
def dequantize (block : IQ4NLBlock) (out : Vector F32 32) : EngineResult (Vector F32 32) :=
  unpackPairs (fun _ byte =>
    .ok (block.scaleF32 * kvaluesIq4nl (byte &&& 0x0f).toNat,
      block.scaleF32 * kvaluesIq4nl (byte >>> 4).toNat)) block.qs out

end IQ4NLBlock

-- ---------------------------------------------------------------------------
-- Q8_K
-- ---------------------------------------------------------------------------

/-- `Q8KBlock`; its sums are of no use to the decoder. -/
structure Q8KBlock where
  d : F32
  qs : Vector Int8 256
  bsums : Vector Int16 16

namespace Q8KBlock

/-- `Q8KBlock::from_bytes`: the scale is a plain float. -/
def fromBytes (bytes : Vector UInt8 292) : Q8KBlock where
  d := ⟨u32At bytes 0⟩
  qs := Vector.ofFn fun i => (peek bytes (4 + i)).toInt8
  bsums := Vector.ofFn fun i => (u16At bytes (260 + i * 2)).toInt16

/-- `Q8KBlock::dequantize`: every element of the buffer, zipped with the codes. -/
def dequantize (block : Q8KBlock) (out : Vector F32 256) : EngineResult (Vector F32 256) :=
  .ok (Vector.zipWith (fun _ q => block.d * F32.ofInt q.toInt) out block.qs)

end Q8KBlock

-- ---------------------------------------------------------------------------
-- A buffer for each block
-- ---------------------------------------------------------------------------

/-- A block of `size` bytes into a buffer of zeros of its own, which is appended in full. -/
def decodeInto (size : Nat) {count : Nat}
    (dequantize : Vector UInt8 size → Vector F32 count → EngineResult (Vector F32 count))
    (chunk : List UInt8) : EngineResult (List F32) := do
  let bytes ← blockOf size chunk
  let values ← dequantize bytes (.replicate count 0)
  .ok values.toList

/-- The values that `decode_q2_k_tensor` appends for a block. -/
def Q2KBlock.decode : List UInt8 → EngineResult (List F32) :=
  decodeInto 84 fun bytes => (fromBytes bytes).dequantize

/-- The values that `decode_q3_k_tensor` appends for a block. -/
def Q3KBlock.decode : List UInt8 → EngineResult (List F32) :=
  decodeInto 110 fun bytes => (fromBytes bytes).dequantize

/-- The values that `decode_q4_k_tensor` appends for a block. -/
def Q4KBlock.decode : List UInt8 → EngineResult (List F32) :=
  decodeInto 144 fun bytes => (fromBytes bytes).dequantize

/-- The values that `decode_q5_k_tensor` appends for a block. -/
def Q5KBlock.decode : List UInt8 → EngineResult (List F32) :=
  decodeInto 176 fun bytes => (fromBytes bytes).dequantize

/-- The values that `decode_q6_k_tensor` appends for a block. -/
def Q6KBlock.decode : List UInt8 → EngineResult (List F32) :=
  decodeInto 210 fun bytes => (fromBytes bytes).dequantize

/-- The values that `decode_q8_k_tensor` appends for a block. -/
def Q8KBlock.decode : List UInt8 → EngineResult (List F32) :=
  decodeInto 292 fun bytes => (fromBytes bytes).dequantize

/-- The values that `decode_iq4_nl_tensor` appends for a block. -/
def IQ4NLBlock.decode : List UInt8 → EngineResult (List F32) :=
  decodeInto 18 fun bytes => (fromBytes bytes).dequantize

/-- The values that `decode_iq4_xs_tensor` appends for a block. -/
def IQ4XSBlock.decode : List UInt8 → EngineResult (List F32) :=
  decodeInto 136 fun bytes => (fromBytes bytes).dequantize

-- ---------------------------------------------------------------------------
-- The ternary formats
-- ---------------------------------------------------------------------------

/-- The loops of `decode_tq2_0_tensor` over a block: two halves of 32 bytes, and of each half
the four planes of two bits. -/
def decodeTq2_0Block (chunk : List UInt8) : EngineResult (List F32) := do
  let block ← blockOf 66 chunk
  let qs : Vector UInt8 64 := slice block 0 64
  let d := f16BitsToF32 (u16At block 64)
  -- the variable of the outer loop takes the values 0 and 32
  (List.range 2).foldlM (fun out half =>
    (List.range 4).foldlM (fun out l =>
      pushes 32 (fun m => do
        let byte ← index qs (half * 32 + m)
        let shifted ← shrU8 byte (l * 2)
        .ok (F32.ofInt (((shifted &&& 3).toNat : Int) - 1) * d)) out) out) []

/-- `POW3` -/
def pow3 : List UInt32 := [1, 3, 9, 27, 81]

/-- The digit of a byte that a power of three brings to the top, as a value. The product is
cut to its low byte. -/
def trit (byte : UInt8) (pw : UInt32) (d : F32) : F32 :=
  let q := (byte.toUInt32 * pw).toUInt8
  let xi := (q.toUInt16 * 3) >>> 8
  F32.ofInt ((xi.toNat : Int) - 1) * d

/-- The loops of `decode_tq1_0_tensor` over a block: five planes of 32, five of 16, and four
of the four bytes of `qh`. -/
def decodeTq1_0Block (chunk : List UInt8) : EngineResult (List F32) := do
  let block ← blockOf 54 chunk
  let qs : Vector UInt8 48 := slice block 0 48
  let qh : Vector UInt8 4 := slice block 48 4
  let d := f16BitsToF32 (u16At block 52)
  let out ← pow3.foldlM (fun out pw =>
    pushes 32 (fun m => do
      let byte ← index qs m
      .ok (trit byte pw d)) out) []
  let out ← pow3.foldlM (fun out pw =>
    pushes 16 (fun m => do
      let byte ← index qs (32 + m)
      .ok (trit byte pw d)) out) out
  (pow3.take 4).foldlM (fun out pw =>
    pushes 4 (fun jj => do
      let byte ← index qh jj
      .ok (trit byte pw d)) out) out

-- ---------------------------------------------------------------------------
-- How many values a block holds
-- ---------------------------------------------------------------------------

/-- A decoder reads every block of `size` bytes to the end, and gives `count` values for
it. -/
def Decodes (decode : List UInt8 → EngineResult (List F32)) (size count : Nat) : Prop :=
  ∀ chunk, chunk.length = size → (decode chunk).Returns fun values => values.length = count

omit [FloatOps] in
/-- What a decoder gives for each block, as a function of the block. -/
theorem Decodes.values {decode : List UInt8 → EngineResult (List F32)} {size count : Nat}
    (h : Decodes decode size count) :
    ∃ values : List UInt8 → List F32, (∀ chunk, (values chunk).length = count) ∧
      ∀ chunk, chunk.length = size → decode chunk = .ok (values chunk) := by
  have hvalue : ∀ chunk, ∃ values : List F32, values.length = count ∧
      (chunk.length = size → decode chunk = .ok values) := by
    intro chunk
    by_cases hchunk : chunk.length = size
    · obtain ⟨values, hvalues, hlength⟩ := h chunk hchunk
      exact ⟨values, hlength, fun _ => hvalues⟩
    · exact ⟨List.replicate count 0, List.length_replicate, fun hsize => absurd hsize hchunk⟩
  choose values hlength hvalues using hvalue
  exact ⟨values, hlength, hvalues⟩

section Pairs

omit [FloatOps]

theorem blockOf_returns {size : Nat} {chunk : List UInt8} (h : chunk.length = size) :
    (blockOf size chunk).Returns fun _ => True :=
  ⟨_, dif_pos h, trivial⟩

/-- A loop over pairs ends where no pair leaves its type: no index leaves a buffer. -/
theorem unpackPairs_returns {α : Type} {codes : Nat → UInt8 → EngineResult (α × α)}
    (hcodes : ∀ idx < 16, ∀ byte, (codes idx byte).Returns fun _ => True) (values : Vector UInt8 16)
    (out : Vector α 32) : (unpackPairs codes values out).Returns fun _ => True := by
  refine returns_foldlM_range (fun _ _ => True) trivial fun idx hidx out _ => ?_
  rw [index_of_lt _ hidx, Outcome.ok_bind]
  refine (hcodes idx hidx _).bind fun (low, high) _ => ?_
  dsimp only
  rw [store_of_lt out (show idx < 32 by omega), Outcome.ok_bind,
    store_of_lt _ (show idx + 16 < 32 by omega)]
  exact returns_ok trivial

/-- A code of five bits less a bias of at most 16 is a byte. -/
theorem subI8_biased {code : UInt8} {bias : Int8} (hcode : code.toNat < 32)
    (hbias : 0 ≤ bias.toInt ∧ bias.toInt ≤ 16) :
    (subI8 code.toInt8 bias).Returns fun _ => True := by
  have hint : code.toInt8.toInt = code.toNat := toInt_toInt8_of_lt (by omega)
  exact (subI8_returns (by omega) (by omega)).mono fun _ _ => trivial

theorem toNat_low_lt (byte : UInt8) : (byte &&& 0x0f).toNat < 2 ^ 4 := by
  rw [@toNat_and_mask _ _ 4 rfl]
  exact Nat.mod_lt _ (by decide)

theorem toNat_high_lt (byte : UInt8) : (byte >>> 4).toNat < 2 ^ 4 := by
  have hlt := byte.toNat_lt
  rw [UInt8.toNat_shiftRight, Nat.shiftRight_eq_div_pow,
    show (4 : UInt8).toNat % 8 = 4 from rfl]
  omega

/-- A high bit is at the fifth place. -/
theorem toNat_highBit_lt (word : UInt32) : ((word &&& 1).toUInt8 <<< 4).toNat < 2 ^ 5 := by
  have hbit : (word &&& 1).toUInt8.toNat ≤ 1 := by
    rw [UInt32.toNat_toUInt8, UInt32.toNat_and]
    exact (Nat.mod_le _ _).trans Nat.and_le_right
  rw [UInt8.toNat_shiftLeft, Nat.shiftLeft_eq, show (4 : UInt8).toNat % 8 = 4 from rfl]
  omega

/-- The two high bits are inside their word, and each is at the fifth place. -/
theorem highBitPair_returns (highBits : UInt32) {idx : Nat} (hidx : idx < 16) :
    (highBitPair highBits idx).Returns fun pair =>
      pair.1.toNat < 2 ^ 5 ∧ pair.2.toNat < 2 ^ 5 := by
  unfold highBitPair shrU32
  rw [if_pos (by omega), Outcome.ok_bind, if_pos (by omega), Outcome.ok_bind]
  exact returns_ok ⟨toNat_highBit_lt _, toNat_highBit_lt _⟩

/-- A nibble under a high bit is a code of five bits. -/
theorem toNat_or_highBit_lt {nibble highBit : UInt8} (hnibble : nibble.toNat < 2 ^ 4)
    (hhigh : highBit.toNat < 2 ^ 5) : (nibble ||| highBit).toNat < 32 := by
  rw [UInt8.toNat_or]
  exact Nat.or_lt_two_pow (n := 5) (by omega) hhigh

end Pairs

omit [FloatOps] in
/-- A block that is unpacked to 32 codes gives a value for each. -/
theorem decodes_unpacked {α β : Type} {size : Nat} {fromBytes : Vector UInt8 size → β}
    {unpackValues : β → EngineResult (Vector α 32)} {value : β → α → F32}
    (hunpack : ∀ block, (unpackValues block).Returns fun _ => True) :
    Decodes (decodeUnpacked size fromBytes unpackValues value) size 32 := by
  intro chunk hchunk
  refine (blockOf_returns hchunk).bind fun bytes _ => (hunpack _).bind fun values _ => ?_
  exact returns_ok (by rw [List.length_map, Vector.length_toList])

omit [FloatOps] in
theorem Q4_0Block.unpackValues_returns (block : Q4_0Block) :
    block.unpackValues.Returns fun _ => True := by
  refine unpackPairs_returns (fun _ _ byte => ?_) _ _
  have hlow := toNat_low_lt byte
  have hhigh := toNat_high_lt byte
  refine (subI8_biased (by omega) (by decide)).bind fun low _ => ?_
  exact (subI8_biased (by omega) (by decide)).bind fun high _ => returns_ok trivial

omit [FloatOps] in
theorem Q4_1Block.unpackValues_returns (block : Q4_1Block) :
    block.unpackValues.Returns fun _ => True :=
  unpackPairs_returns (fun _ _ _ => returns_ok trivial) _ _

omit [FloatOps] in
theorem Q5_0Block.unpackValues_returns (block : Q5_0Block) :
    block.unpackValues.Returns fun _ => True := by
  refine unpackPairs_returns (fun _ hidx byte => ?_) _ _
  refine (highBitPair_returns block.highBits hidx).bind fun (lowHigh, highHigh) ⟨hlow, hhigh⟩ => ?_
  have hlowCode := toNat_or_highBit_lt (toNat_low_lt byte) hlow
  have hhighCode := toNat_or_highBit_lt (toNat_high_lt byte) hhigh
  refine (subI8_biased hlowCode (by decide)).bind fun low _ => ?_
  exact (subI8_biased hhighCode (by decide)).bind fun high _ => returns_ok trivial

omit [FloatOps] in
theorem Q5_1Block.unpackValues_returns (block : Q5_1Block) :
    block.unpackValues.Returns fun _ => True :=
  unpackPairs_returns (fun _ hidx _ =>
    (highBitPair_returns block.highBits hidx).bind fun _ _ => returns_ok trivial) _ _

theorem Q4_0Block.decodes : Decodes decode 18 32 := decodes_unpacked unpackValues_returns

theorem Q4_1Block.decodes : Decodes decode 20 32 := decodes_unpacked unpackValues_returns

theorem Q5_0Block.decodes : Decodes decode 22 32 := decodes_unpacked unpackValues_returns

theorem Q5_1Block.decodes : Decodes decode 24 32 := decodes_unpacked unpackValues_returns

omit [FloatOps] in
/-- A block that fills a buffer gives as many values as the buffer has. -/
theorem decodes_into {size count : Nat}
    {dequantize : Vector UInt8 size → Vector F32 count → EngineResult (Vector F32 count)}
    (hdequantize : ∀ bytes out, (dequantize bytes out).Returns fun _ => True) :
    Decodes (decodeInto size dequantize) size count := by
  intro chunk hchunk
  refine (blockOf_returns hchunk).bind fun bytes _ => (hdequantize _ _).bind fun values _ => ?_
  exact returns_ok values.length_toList

omit [FloatOps] in
/-- The formats whose elements are known fill their buffers. -/
theorem decodes_elements {size : Nat}
    {dequantize : Vector UInt8 size → Vector F32 256 → EngineResult (Vector F32 256)}
    {elements : Vector UInt8 size → Vector F32 256}
    (helements : ∀ bytes out, dequantize bytes out = .ok (elements bytes)) :
    Decodes (decodeInto size dequantize) size 256 :=
  decodes_into fun bytes out => ⟨_, helements bytes out, trivial⟩

theorem Q2KBlock.decodes : Decodes decode 84 256 := decodes_elements fun _ => dequantize_eq _

theorem Q3KBlock.decodes : Decodes decode 110 256 := decodes_elements fun _ => dequantize_eq _

theorem Q4KBlock.decodes : Decodes decode 144 256 := decodes_elements fun _ => dequantize_eq _

theorem Q5KBlock.decodes : Decodes decode 176 256 := decodes_elements fun _ => dequantize_eq _

theorem Q6KBlock.decodes : Decodes decode 210 256 := decodes_elements fun _ => dequantize_eq _

theorem IQ4XSBlock.decodes : Decodes decode 136 256 := decodes_elements fun _ => dequantize_eq _

theorem Q8KBlock.decodes : Decodes decode 292 256 := decodes_into fun _ _ => ⟨_, rfl, trivial⟩

theorem IQ4NLBlock.decodes : Decodes decode 18 32 :=
  decodes_into fun _ out => unpackPairs_returns (fun _ _ _ => returns_ok trivial) _ out

/-- Two halves of four planes of 32 values. -/
theorem decodeTq2_0Block_decodes : Decodes decodeTq2_0Block 66 256 := by
  intro chunk hchunk
  refine (blockOf_returns hchunk).bind fun block _ => ?_
  refine (returns_foldlM_longer (k := 128) (fun half hhalf out => ?_) []).mono fun out hout => ?_
  · refine (returns_foldlM_longer (k := 32) (fun l hl out => pushes_returns (fun m hm => ?_) out)
      out).mono fun out hout => hout
    have hhalf' := List.mem_range.mp hhalf
    have hl' := List.mem_range.mp hl
    rw [index_of_lt _ (show half * 32 + m < 64 by omega), Outcome.ok_bind,
      shrU8_of_lt _ (by omega)]
    exact returns_ok trivial
  · exact hout

/-- The planes of one byte array of a ternary block, `n` values for each power. -/
theorem trits_returns {k : Nat} (bytes : Vector UInt8 k) (start n : Nat) (hfits : start + n ≤ k)
    (powers : List UInt32) (d : F32) (out : List F32) :
    (powers.foldlM (fun out pw => pushes n (fun m => do
        let byte ← index bytes (start + m)
        .ok (trit byte pw d)) out) out : EngineResult (List F32)).Returns
      fun out' => out'.length = out.length + powers.length * n := by
  refine returns_foldlM_longer (fun pw _ out => pushes_returns (fun m hm => ?_) out) out
  rw [index_of_lt _ (by omega)]
  exact returns_ok trivial

/-- Five planes of 32 values, five of 16 and four of four. -/
theorem decodeTq1_0Block_decodes : Decodes decodeTq1_0Block 54 256 := by
  intro chunk hchunk
  refine (blockOf_returns hchunk).bind fun block _ => ?_
  have hfirst := trits_returns (slice block 0 48 : Vector UInt8 48) 0 32 (by decide) pow3 
    (f16BitsToF32 (u16At block 52)) []
  simp only [Nat.zero_add] at hfirst
  refine hfirst.bind fun out hout => ?_
  refine (trits_returns (slice block 0 48 : Vector UInt8 48) 32 16 (by decide) pow3 _ out).bind fun out' hout' => ?_
  have hlast := trits_returns (slice block 48 4 : Vector UInt8 4) 0 4 (by decide) (pow3.take 4)
    (f16BitsToF32 (u16At block 52)) out'
  simp only [Nat.zero_add] at hlast
  refine hlast.mono fun out'' hout'' => ?_
  rw [hout'', hout', hout]
  rfl

end CamelidEnterprise

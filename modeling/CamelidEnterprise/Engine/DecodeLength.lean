import CamelidEnterprise.Engine.Orientation

/-!
# Camelid Enterprise — lengths of decoded tensors

The decoders of `crates/engine-core/src/tensor/blocks.rs` as functions of a name,
bytes and an expected element count of any size: the products that size the bytes,
which wrap in a release build and stop a debug build, and the buffers that are
reserved for the count. `Engine/Load.lean` has them for the counts a header declares.

* `Build.decodeTensor_failsClosed_iff` — where a decoder returns as many values as
  were expected and no others: the block formats check that bytes are whole blocks
  and never compare them with the count, and the product of the plain formats wraps.
-/

namespace CamelidEnterprise

open Foundation Gguf

/-- The values of a decoder, put into a buffer that was reserved for the expected
ones. -/
def reserved (expectedElements : Nat) (decoded : EngineResult (List F32)) :
    EngineResult (List F32) := do
  let out ← decoded
  withCapacity expectedElements 4
  .ok out

-- ---------------------------------------------------------------------------
-- NVFP4
-- ---------------------------------------------------------------------------

/-- `KVALUES_MXFP4_I8` -/
def kvaluesMxfp4I8 : List Int := [0, 1, 2, 3, 4, 6, 8, 12, 0, -1, -2, -3, -4, -6, -8, -12]

/-- `KVALUES_MXFP4` -/
def kvaluesMxfp4 (nibble : UInt8) : F32 := F32.ofInt (kvaluesMxfp4I8.getD nibble.toNat 0)

/-- `nvfp4_find_nan_scale` -/
def nvfp4FindNanScale (bytes : List UInt8) : Option Nat :=
  (chunksExact 36 bytes).findIdx? fun block =>
    (block.take 4).any fun b => b == 0x7F || b == 0xFF

section Nvfp4

variable [FloatOps]

/-- `ue4m3_to_f32_const` -/
def ue4m3ToF32 (byte : UInt8) : F32 :=
  if byte = 0x00 ∨ byte = 0x7F then 0
  else
    let exp := (byte >>> 3) &&& 0xF
    let man := F32.ofInt (byte &&& 0x7).toNat
    let raw : F32 :=
      if exp = 0 then man * ⟨(127 - 9 : UInt32) <<< 23⟩
      else (1 + man / 8) * ⟨UInt32.ofNat ((exp.toNat : Int) - 7 + 127).toNat <<< 23⟩
    raw * ⟨0x3f000000⟩

/-- `nvfp4_block_decode_into`: the low nibbles of a sub-block come first, then its high
ones. -/
def nvfp4BlockDecode (block : List UInt8) : List F32 :=
  (List.range 4).flatMap fun s =>
    let d := ue4m3ToF32 (block.getD s 0)
    let byte := fun j => block.getD (4 + s * 8 + j) 0
    (List.range 8).map (fun j => kvaluesMxfp4 (byte j &&& 0x0F) * d) ++
      (List.range 8).map fun j => kvaluesMxfp4 (byte j >>> 4) * d

theorem length_nvfp4BlockDecode (block : List UInt8) : (nvfp4BlockDecode block).length = 64 := by
  simp [nvfp4BlockDecode, List.length_flatMap]

end Nvfp4

namespace Build

variable (build : Build)

/-- The check and the loop shared by the decoders of plain values. -/
def decodeValues (label : String) (width : Nat) (value : List UInt8 → F32) (name : Str)
    (bytes : List UInt8) (expectedElements : Nat) : EngineResult (List F32) := do
  let expectedBytes ← build.mul expectedElements width
  if bytes.length ≠ expectedBytes then
    .err (.InvalidTensorData
      s!"tensor {display name} {label} byte length {bytes.length} does not match expected {expectedBytes}")
  else .ok ((chunksExact width bytes).map value)

/-- `decode_f32_tensor` -/
def decodeF32Tensor : Str → List UInt8 → Nat → EngineResult (List F32) :=
  build.decodeValues "f32" 4 fun chunk => ⟨.ofNat (Cursor.fromLeBytes chunk)⟩

/-- `decode_f16_tensor` -/
def decodeF16Tensor : Str → List UInt8 → Nat → EngineResult (List F32) :=
  build.decodeValues "f16" 2 fun chunk => f16BitsToF32 (.ofNat (Cursor.fromLeBytes chunk))

/-- `decode_bf16_tensor` -/
def decodeBf16Tensor : Str → List UInt8 → Nat → EngineResult (List F32) :=
  build.decodeValues "bf16" 2 fun chunk =>
    ⟨(UInt16.ofNat (Cursor.fromLeBytes chunk)).toUInt32 <<< 16⟩

/-- `decode_q8_0_blocks`; a block is 36 bytes of memory. -/
def decodeQ8_0Blocks (name : Str) (bytes : List UInt8) (expectedElements : Nat) :
    EngineResult (List Q8_0Block) := do
  if expectedElements % 32 ≠ 0 then
    .err (.InvalidTensorData
      s!"tensor {display name} q8_0 element count {expectedElements} is not divisible by 32")
  else do
    let expectedBytes ← build.mul (expectedElements / 32) 34
    if bytes.length ≠ expectedBytes then
      .err (.InvalidTensorData
        s!"tensor {display name} q8_0 byte length {bytes.length} does not match expected {expectedBytes}")
    else do
      withCapacity (expectedElements / 32) 36
      .ok ((chunksExact 34 bytes).map Q8_0Block.ofBytes)

section Decoders

variable [FloatOps]

/-- `decode_q8_0_tensor` -/
def decodeQ8_0Tensor (name : Str) (bytes : List UInt8) (expectedElements : Nat) :
    EngineResult (List F32) := do
  let blocks ← build.decodeQ8_0Blocks name bytes expectedElements
  withCapacity expectedElements 4
  .ok (blocks.flatMap Q8_0Block.dequantize)

/-- `decode_nvfp4_tensor`, once the length of the bytes is right. -/
def decodeNvfp4Blocks (name : Str) (bytes : List UInt8) (expectedElements : Nat) :
    EngineResult (List F32) :=
  match nvfp4FindNanScale bytes with
  | some blockIdx =>
    .err (.InvalidTensorData
      s!"{display name}: NVFP4 block {blockIdx} carries a NaN-sentinel UE4M3 scale byte (0x7F/0xFF); refusing at load (per-block dequant stays bit-exact)")
  | none => do
    withCapacity expectedElements 4
    .ok ((chunksExact 36 bytes).flatMap nvfp4BlockDecode)

/-- `decode_nvfp4_tensor` -/
def decodeNvfp4Tensor (name : Str) (bytes : List UInt8) (expectedElements : Nat) :
    EngineResult (List F32) := do
  if expectedElements % 64 ≠ 0 then
    .err (.InvalidTensorData
      s!"{display name}: NVFP4 element count {expectedElements} is not a multiple of 64")
  else do
    let blocks := expectedElements / 64
    let expectedBytes ← build.mul blocks 36
    if bytes.length ≠ expectedBytes then
      .err (.InvalidTensorData
        s!"{display name}: NVFP4 wire length {bytes.length} != {blocks} blocks * 36 bytes = {expectedBytes}")
    else decodeNvfp4Blocks name bytes expectedElements

/-- The decoder of a storage type. -/
def decodeTensor (ty : TensorType) (name : Str) (bytes : List UInt8) (expectedElements : Nat) :
    EngineResult (List F32) :=
  match ty with
  | .F32 => build.decodeF32Tensor name bytes expectedElements
  | .F16 => build.decodeF16Tensor name bytes expectedElements
  | .BF16 => build.decodeBf16Tensor name bytes expectedElements
  | .Q8_0 => build.decodeQ8_0Tensor name bytes expectedElements
  | .NVFP4 => build.decodeNvfp4Tensor name bytes expectedElements
  | .Q4_0 => reserved expectedElements (decodeQ4_0Tensor name bytes)
  | .Q4_1 => reserved expectedElements (decodeQ4_1Tensor name bytes)
  | .Q5_0 => reserved expectedElements (decodeQ5_0Tensor name bytes)
  | .Q5_1 => reserved expectedElements (decodeQ5_1Tensor name bytes)
  | .Q2K => reserved expectedElements (decodeQ2KTensor name bytes)
  | .Q3K => reserved expectedElements (decodeQ3KTensor name bytes)
  | .Q4K => reserved expectedElements (decodeQ4KTensor name bytes)
  | .Q5K => reserved expectedElements (decodeQ5KTensor name bytes)
  | .Q6K => reserved expectedElements (decodeQ6KTensor name bytes)
  | .Q8K => reserved expectedElements (decodeQ8KTensor name bytes)
  | .IQ4NL => reserved expectedElements (decodeIq4NlTensor name bytes)
  | .IQ4XS => reserved expectedElements (decodeIq4XsTensor name bytes)
  | .Tq1_0 => reserved expectedElements (decodeTq1_0Tensor name bytes)
  | .Tq2_0 => reserved expectedElements (decodeTq2_0Tensor name bytes)
  | other => CamelidEnterprise.decodeTensor other name bytes expectedElements

end Decoders

end Build

-- ---------------------------------------------------------------------------
-- When they fail closed
-- ---------------------------------------------------------------------------

/-- The bytes a decoder takes for a block: as many as the header gives it, but for
`Q5_1`. -/
def Gguf.TensorType.decodedBytes (ty : TensorType) : Nat :=
  match ty, ty.layout with
  | .Q5_1, _ => 24
  | _, some (_, size) => size.toNat
  | _, none => 0

/-- The bytes are those of `m` elements. -/
def HoldsElements (ty : TensorType) (byteCount m : Nat) : Prop :=
  ty.blockValues ∣ m ∧ byteCount = m / ty.blockValues * ty.decodedBytes

/-- What is returned has as many elements as were expected, and bytes of any other
number of them are refused. -/
structure FailsClosed (ty : TensorType) (bytes : List UInt8) (expectedElements : Nat)
    (result : EngineResult (List F32)) : Prop where
  exact_length : ∀ data, result = .ok data → data.length = expectedElements
  refused : ∀ m, m ≠ expectedElements → HoldsElements ty bytes.length m → ∀ data, result ≠ .ok data

/-- The condition under which a decoder does: the product of a plain format does not
wrap onto the length of the bytes, and the blocks of a block format are as many as
the elements expected. -/
def LengthGuarded (build : Build) (ty : TensorType) (byteCount expectedElements : Nat) : Prop :=
  match ty with
  | .F32 | .F16 | .BF16 =>
    build = .debug ∨ expectedElements * ty.decodedBytes < 2 ^ 64 ∨
      byteCount ≠ expectedElements * ty.decodedBytes % 2 ^ 64
  | .Q4_0 | .Q4_1 | .Q5_0 | .Q5_1 | .Q2K | .Q3K | .Q4K | .Q5K | .Q6K | .Q8K | .IQ4NL | .IQ4XS
  | .Tq1_0 | .Tq2_0 =>
    byteCount % ty.decodedBytes ≠ 0 ∨ 2 ^ 63 ≤ expectedElements * 4 ∨
      byteCount / ty.decodedBytes * ty.blockValues = expectedElements
  | _ => True

theorem reserved_eq_ok {expectedElements : Nat} {decoded : EngineResult (List F32)}
    {data : List F32} :
    reserved expectedElements decoded = .ok data ↔
      decoded = .ok data ∧ expectedElements * 4 < 2 ^ 63 := by
  unfold reserved
  rw [Outcome.bind_eq_ok]
  constructor
  · rintro ⟨out, hdecoded, h⟩
    obtain ⟨hcapacity, h⟩ := Outcome.check_eq_ok.mp h
    obtain rfl := Outcome.ok.inj h
    exact ⟨hdecoded, withCapacity_eq_ok.mp hcapacity⟩
  · rintro ⟨hdecoded, hcapacity⟩
    exact ⟨data, hdecoded, Outcome.check_eq_ok.mpr ⟨withCapacity_eq_ok.mpr hcapacity, rfl⟩⟩

namespace Build

variable {build : Build}

theorem mul_eq_ok {a b c : Nat} : build.mul a b = .ok c ↔
    c = a * b ∧ a * b < 2 ^ 64 ∨ build = .release ∧ 2 ^ 64 ≤ a * b ∧ c = a * b % 2 ^ 64 := by
  cases build with
  | debug => simp [mul, plainMul_eq_ok]
  | release =>
    simp only [mul, Outcome.ok.injEq, true_and]
    omega

-- ---------------------------------------------------------------------------
-- Plain values
-- ---------------------------------------------------------------------------

theorem decodeValues_eq_ok {label : String} {width : Nat} {value : List UInt8 → F32} {name : Str}
    {bytes : List UInt8} {n : Nat} {data : List F32} :
    build.decodeValues label width value name bytes n = .ok data ↔
      build.mul n width = .ok bytes.length ∧ data = (chunksExact width bytes).map value := by
  unfold decodeValues
  rw [Outcome.bind_eq_ok]
  constructor
  · rintro ⟨expectedBytes, hmul, h⟩
    split at h
    · exact absurd h (by simp)
    rename_i hlength
    rw [not_not.mp hlength]
    exact ⟨hmul, (Outcome.ok.inj h).symm⟩
  · rintro ⟨hmul, rfl⟩
    exact ⟨bytes.length, hmul, by rw [if_neg (not_not.mpr rfl)]⟩

/-- The decoders of plain values return the expected count, but where the product
wraps onto the length of the bytes. -/
theorem length_decodeValues_iff {label : String} {width : Nat} {value : List UInt8 → F32}
    (hpos : 0 < width) (name : Str) (bytes : List UInt8) (n : Nat) :
    (∀ data, build.decodeValues label width value name bytes n = .ok data → data.length = n) ↔
      build = .debug ∨ n * width < 2 ^ 64 ∨ bytes.length ≠ n * width % 2 ^ 64 := by
  have hcount : ∀ data, data = (chunksExact width bytes).map value →
      data.length = bytes.length / width := by
    rintro data rfl
    rw [List.length_map, length_chunksExact]
  constructor
  · intro h
    by_contra hwraps
    simp only [not_or, not_lt, not_not] at hwraps
    obtain ⟨hbuild, hlarge, hlength⟩ := hwraps
    have hrelease : build = .release := by
      cases build with
      | debug => exact absurd rfl hbuild
      | release => rfl
    have hdecoded := h _ (decodeValues_eq_ok.mpr
      ⟨mul_eq_ok.mpr (.inr ⟨hrelease, hlarge, hlength⟩), rfl⟩)
    rw [hcount _ rfl] at hdecoded
    -- the wrapped product is smaller than the product itself
    have hsmaller : bytes.length < n * width := by
      rw [hlength]
      exact lt_of_lt_of_le (Nat.mod_lt _ (by decide)) hlarge
    have hfewer := (Nat.div_lt_iff_lt_mul hpos).mpr hsmaller
    omega
  · intro hguard data h
    obtain ⟨hmul, hdata⟩ := decodeValues_eq_ok.mp h
    rw [hcount data hdata]
    rcases mul_eq_ok.mp hmul with ⟨hlength, -⟩ | ⟨hbuild, hlarge, hlength⟩
    · rw [hlength, Nat.mul_div_cancel _ hpos]
    · rcases hguard with hdebug | hsmall | hne
      · rw [hbuild] at hdebug
        exact absurd hdebug (by decide)
      · omega
      · exact absurd hlength hne

theorem length_of_decodeValues_holds {label : String} {width : Nat} {value : List UInt8 → F32}
    (hpos : 0 < width) {name : Str} {bytes : List UInt8} {n m : Nat} {data : List F32}
    (hbytes : bytes.length = m * width)
    (h : build.decodeValues label width value name bytes n = .ok data) : data.length = m := by
  rw [(decodeValues_eq_ok.mp h).2, List.length_map, length_chunksExact, hbytes,
    Nat.mul_div_cancel _ hpos]

-- ---------------------------------------------------------------------------
-- Blocks
-- ---------------------------------------------------------------------------

section Decoders

variable [FloatOps]

/-- A product that is reserved afterwards in full has not wrapped. -/
theorem length_of_decodeQ8_0Tensor {name : Str} {bytes : List UInt8} {n : Nat} {data : List F32}
    (h : build.decodeQ8_0Tensor name bytes n = .ok data) :
    data.length = n ∧ n % 32 = 0 ∧ bytes.length = n / 32 * 34 := by
  obtain ⟨blocks, hblocks, h⟩ := Outcome.bind_eq_ok.mp h
  obtain ⟨-, h⟩ := Outcome.check_eq_ok.mp h
  obtain rfl := Outcome.ok.inj h
  unfold decodeQ8_0Blocks at hblocks
  split at hblocks
  · exact absurd hblocks (by simp)
  rename_i haligned
  obtain ⟨expectedBytes, hmul, hblocks⟩ := Outcome.bind_eq_ok.mp hblocks
  split at hblocks
  · exact absurd hblocks (by simp)
  rename_i hlength
  obtain ⟨hcapacity, hblocks⟩ := Outcome.check_eq_ok.mp hblocks
  have hfits := withCapacity_eq_ok.mp hcapacity
  obtain rfl := Outcome.ok.inj hblocks
  have hbytes : bytes.length = n / 32 * 34 := by
    rcases mul_eq_ok.mp hmul with ⟨hexact, -⟩ | ⟨-, hlarge, -⟩
    · omega
    · omega
  refine ⟨?_, by omega, hbytes⟩
  rw [Rows.length_flatMap_blocks Q8_0Block.length_dequantize, List.length_map, length_chunksExact,
    hbytes, Nat.mul_div_cancel _ (by decide)]
  omega

theorem length_of_decodeNvfp4Tensor {name : Str} {bytes : List UInt8} {n : Nat} {data : List F32}
    (h : build.decodeNvfp4Tensor name bytes n = .ok data) :
    data.length = n ∧ n % 64 = 0 ∧ bytes.length = n / 64 * 36 := by
  unfold decodeNvfp4Tensor at h
  split at h
  · exact absurd h (by simp)
  rename_i haligned
  obtain ⟨expectedBytes, hmul, h⟩ := Outcome.bind_eq_ok.mp h
  split at h
  · exact absurd h (by simp)
  rename_i hlength
  unfold decodeNvfp4Blocks at h
  split at h
  · exact absurd h (by simp)
  obtain ⟨hcapacity, h⟩ := Outcome.check_eq_ok.mp h
  have hfits := withCapacity_eq_ok.mp hcapacity
  obtain rfl := Outcome.ok.inj h
  have hbytes : bytes.length = n / 64 * 36 := by
    rcases mul_eq_ok.mp hmul with ⟨hexact, -⟩ | ⟨-, hlarge, -⟩
    · omega
    · omega
  refine ⟨?_, by omega, hbytes⟩
  rw [Rows.length_flatMap_blocks length_nvfp4BlockDecode, length_chunksExact, hbytes,
    Nat.mul_div_cancel _ (by decide)]
  omega

end Decoders

/-- The decoders of the block formats return what the bytes hold. -/
theorem length_reserved_iff {decode : List UInt8 → EngineResult (List F32)} {size count : Nat}
    (hdecodes : Decodes decode size count) (label : String) (name : Str) (bytes : List UInt8)
    (n : Nat) :
    (∀ data, reserved n (decodeBlocks label size decode name bytes) = .ok data → data.length = n) ↔
      bytes.length % size ≠ 0 ∨ 2 ^ 63 ≤ n * 4 ∨ bytes.length / size * count = n := by
  constructor
  · intro h
    by_contra hopen
    simp only [not_or, not_not, not_le] at hopen
    obtain ⟨haligned, hcapacity, hne⟩ := hopen
    obtain ⟨values, -, hvalues⟩ := hdecodes.values
    have hdata := decodeBlocks_eq label hvalues name haligned
    exact hne ((length_of_decodeBlocks hdecodes hdata).symm.trans
      (h _ (reserved_eq_ok.mpr ⟨hdata, hcapacity⟩)))
  · intro hguard data h
    obtain ⟨hdata, hcapacity⟩ := reserved_eq_ok.mp h
    rcases hguard with hodd | hlarge | hcount
    · unfold decodeBlocks at hdata
      rw [if_pos hodd] at hdata
      exact absurd hdata (by simp)
    · omega
    · exact (length_of_decodeBlocks hdecodes hdata).trans hcount

/-- Both halves of the contract come to the first, where a decoder returns what the
bytes hold. -/
theorem failsClosed_iff {ty : TensorType} {bytes : List UInt8} {n : Nat}
    {result : EngineResult (List F32)}
    (hholds : ∀ m data, HoldsElements ty bytes.length m → result = .ok data → data.length = m) :
    FailsClosed ty bytes n result ↔ ∀ data, result = .ok data → data.length = n := by
  constructor
  · exact fun h => h.exact_length
  · intro h
    refine ⟨h, ?_⟩
    intro m hne hm data hdata
    exact hne ((hholds m data hm hdata).symm.trans (h data hdata))

/-- A type without a decoder returns nothing. -/
theorem vacuous_of_err {result : EngineResult (List F32)} {e : EngineError} (h : result = .err e)
    (P : List F32 → Prop) : (∀ data, result = .ok data → P data) ↔ True := by
  simp [h]

section Claims

variable [FloatOps]

theorem decodeTensor_holds {ty : TensorType} {name : Str} {bytes : List UInt8} {n m : Nat}
    {data : List F32} (hm : HoldsElements ty bytes.length m)
    (h : build.decodeTensor ty name bytes n = .ok data) : data.length = m := by
  obtain ⟨hdvd, hbytes⟩ := hm
  have hblocks : ∀ {label : String} {size : Nat} {decode : List UInt8 → EngineResult (List F32)},
      Decodes decode size ty.blockValues → 0 < size → ty.decodedBytes = size →
      reserved n (decodeBlocks label size decode name bytes) = .ok data → data.length = m := by
    intro label size decode hdecodes hpos hsize hreserved
    rw [length_of_decodeBlocks hdecodes (reserved_eq_ok.mp hreserved).1, hbytes, hsize,
      Nat.mul_div_cancel _ hpos, Nat.div_mul_cancel hdvd]
  have hplain : ∀ {label : String} {width : Nat} {value : List UInt8 → F32}, 0 < width →
      ty.blockValues = 1 → ty.decodedBytes = width →
      build.decodeValues label width value name bytes n = .ok data → data.length = m := by
    intro label width value hpos hone hwidth hvalues
    refine length_of_decodeValues_holds hpos ?_ hvalues
    rw [hbytes, hone, hwidth, Nat.div_one]
  -- two formats check the alignment of the count themselves, the others cut the bytes
  cases ty with
  | F32 => exact hplain (by decide) rfl rfl h
  | F16 => exact hplain (by decide) rfl rfl h
  | BF16 => exact hplain (by decide) rfl rfl h
  | Q8_0 =>
    obtain ⟨hlength, haligned, hcount⟩ := length_of_decodeQ8_0Tensor h
    have hvalues : 32 ∣ m := hdvd
    have hm : bytes.length = m / 32 * 34 := hbytes
    omega
  | NVFP4 =>
    obtain ⟨hlength, haligned, hcount⟩ := length_of_decodeNvfp4Tensor h
    have hvalues : 64 ∣ m := hdvd
    have hm : bytes.length = m / 64 * 36 := hbytes
    omega
  | Q4_0 => exact hblocks Q4_0Block.decodes (by decide) rfl h
  | Q4_1 => exact hblocks Q4_1Block.decodes (by decide) rfl h
  | Q5_0 => exact hblocks Q5_0Block.decodes (by decide) rfl h
  | Q5_1 => exact hblocks Q5_1Block.decodes (by decide) rfl h
  | Q2K => exact hblocks Q2KBlock.decodes (by decide) rfl h
  | Q3K => exact hblocks Q3KBlock.decodes (by decide) rfl h
  | Q4K => exact hblocks Q4KBlock.decodes (by decide) rfl h
  | Q5K => exact hblocks Q5KBlock.decodes (by decide) rfl h
  | Q6K => exact hblocks Q6KBlock.decodes (by decide) rfl h
  | Q8K => exact hblocks Q8KBlock.decodes (by decide) rfl h
  | IQ4NL => exact hblocks IQ4NLBlock.decodes (by decide) rfl h
  | IQ4XS => exact hblocks IQ4XSBlock.decodes (by decide) rfl h
  | Tq1_0 => exact hblocks decodeTq1_0Block_decodes (by decide) rfl h
  | Tq2_0 => exact hblocks decodeTq2_0Block_decodes (by decide) rfl h
  | Q8_1 => exact absurd h (by simp [decodeTensor, CamelidEnterprise.decodeTensor])
  | I8 => exact absurd h (by simp [decodeTensor, CamelidEnterprise.decodeTensor])
  | I16 => exact absurd h (by simp [decodeTensor, CamelidEnterprise.decodeTensor])
  | I32 => exact absurd h (by simp [decodeTensor, CamelidEnterprise.decodeTensor])
  | I64 => exact absurd h (by simp [decodeTensor, CamelidEnterprise.decodeTensor])
  | F64 => exact absurd h (by simp [decodeTensor, CamelidEnterprise.decodeTensor])
  | Unknown id => exact absurd h (by simp [decodeTensor, CamelidEnterprise.decodeTensor])

/-- A decoder fails closed where its product does not wrap onto the length of the bytes
and its blocks are as many as the count asks for. -/
theorem decodeTensor_failsClosed_iff (build : Build) (ty : TensorType) (name : Str)
    (bytes : List UInt8) (expectedElements : Nat) :
    FailsClosed ty bytes expectedElements (build.decodeTensor ty name bytes expectedElements) ↔
      LengthGuarded build ty bytes.length expectedElements := by
  rw [failsClosed_iff fun m data hm h => decodeTensor_holds hm h]
  cases ty with
  | F32 => exact length_decodeValues_iff (by decide) name bytes expectedElements
  | F16 => exact length_decodeValues_iff (by decide) name bytes expectedElements
  | BF16 => exact length_decodeValues_iff (by decide) name bytes expectedElements
  | Q8_0 => exact iff_of_true (fun _ h => (length_of_decodeQ8_0Tensor h).1) trivial
  | NVFP4 => exact iff_of_true (fun _ h => (length_of_decodeNvfp4Tensor h).1) trivial
  | Q4_0 => exact length_reserved_iff Q4_0Block.decodes _ name bytes expectedElements
  | Q4_1 => exact length_reserved_iff Q4_1Block.decodes _ name bytes expectedElements
  | Q5_0 => exact length_reserved_iff Q5_0Block.decodes _ name bytes expectedElements
  | Q5_1 => exact length_reserved_iff Q5_1Block.decodes _ name bytes expectedElements
  | Q2K => exact length_reserved_iff Q2KBlock.decodes _ name bytes expectedElements
  | Q3K => exact length_reserved_iff Q3KBlock.decodes _ name bytes expectedElements
  | Q4K => exact length_reserved_iff Q4KBlock.decodes _ name bytes expectedElements
  | Q5K => exact length_reserved_iff Q5KBlock.decodes _ name bytes expectedElements
  | Q6K => exact length_reserved_iff Q6KBlock.decodes _ name bytes expectedElements
  | Q8K => exact length_reserved_iff Q8KBlock.decodes _ name bytes expectedElements
  | IQ4NL => exact length_reserved_iff IQ4NLBlock.decodes _ name bytes expectedElements
  | IQ4XS => exact length_reserved_iff IQ4XSBlock.decodes _ name bytes expectedElements
  | Tq1_0 => exact length_reserved_iff decodeTq1_0Block_decodes _ name bytes expectedElements
  | Tq2_0 => exact length_reserved_iff decodeTq2_0Block_decodes _ name bytes expectedElements
  | Q8_1 => exact vacuous_of_err rfl _
  | I8 => exact vacuous_of_err rfl _
  | I16 => exact vacuous_of_err rfl _
  | I32 => exact vacuous_of_err rfl _
  | I64 => exact vacuous_of_err rfl _
  | F64 => exact vacuous_of_err rfl _
  | Unknown id => exact vacuous_of_err rfl _

/-- With the counts a header can declare, a debug build decodes as the loaders do. -/
theorem debug_decodeTensor_eq {ty : TensorType} (hty : ty ≠ .NVFP4) (name : Str)
    (bytes : List UInt8) {n : Nat} (hn : n * 4 < 2 ^ 63) :
    Build.debug.decodeTensor ty name bytes n = CamelidEnterprise.decodeTensor ty name bytes n := by
  have hreserved : ∀ decoded : EngineResult (List F32), reserved n decoded = decoded := by
    intro decoded
    unfold reserved
    rw [withCapacity_eq_ok.mpr hn]
    cases decoded with
    | ok out => rfl
    | err e => rfl
    | fault k => rfl
  -- the capacity is the only thing the debug build asks more
  cases ty with
  | Q8_0 =>
    have hcapacity : withCapacity (n / 32) 36 = .ok () := withCapacity_eq_ok.mpr (by omega)
    have hblocks : Build.debug.decodeQ8_0Blocks name bytes n =
        CamelidEnterprise.decodeQ8_0Blocks name bytes n := by
      unfold decodeQ8_0Blocks CamelidEnterprise.decodeQ8_0Blocks
      rw [hcapacity]
      rfl
    show Build.debug.decodeQ8_0Tensor name bytes n = CamelidEnterprise.decodeQ8_0Tensor name bytes n
    unfold decodeQ8_0Tensor CamelidEnterprise.decodeQ8_0Tensor
    rw [hblocks, withCapacity_eq_ok.mpr hn]
    rfl
  | NVFP4 => exact absurd rfl hty
  | Q4_0 => exact hreserved _
  | Q4_1 => exact hreserved _
  | Q5_0 => exact hreserved _
  | Q5_1 => exact hreserved _
  | Q2K => exact hreserved _
  | Q3K => exact hreserved _
  | Q4K => exact hreserved _
  | Q5K => exact hreserved _
  | Q6K => exact hreserved _
  | Q8K => exact hreserved _
  | IQ4NL => exact hreserved _
  | IQ4XS => exact hreserved _
  | Tq1_0 => exact hreserved _
  | Tq2_0 => exact hreserved _
  | F32 => rfl
  | F16 => rfl
  | BF16 => rfl
  | Q8_1 => rfl
  | I8 => rfl
  | I16 => rfl
  | I32 => rfl
  | I64 => rfl
  | F64 => rfl
  | Unknown id => rfl

end Claims

-- ---------------------------------------------------------------------------
-- Lengths that pass unseen
-- ---------------------------------------------------------------------------

section Samples

attribute [local instance] residueOps

/-- One block of `Q4_0` where nothing is expected is decoded to its 32 values, and no
bytes at all pass for `2 ^ 62` floats in a release build. -/
theorem decodeTensor_unguarded :
    ¬FailsClosed .Q4_0 (List.replicate 18 0) 0
        (Build.release.decodeTensor .Q4_0 ['w'] (List.replicate 18 0) 0) ∧
      ¬FailsClosed .F32 [] (2 ^ 62) (Build.release.decodeTensor .F32 ['w'] [] (2 ^ 62)) := by
  constructor
  · intro h
    exact absurd (h.exact_length (List.replicate 32 0) (by decide +kernel)) (by decide)
  · intro h
    exact absurd (h.exact_length [] (by decide +kernel)) (by decide)

end Samples

end Build

end CamelidEnterprise

import CamelidEnterprise.Engine.Binding
import CamelidEnterprise.Engine.Forward
import CamelidEnterprise.Engine.GgufLayout

/-!
# Camelid Enterprise — loading

`crates/engine-core/src/tensor/store.rs`, `LlamaWeights::load` of
`crates/engine-core/src/model/weights.rs`, and the load pipeline of
`crates/engine-core/src/runtime.rs`: the payload of every bound descriptor is read
from the file and decoded, the weights are checked against the configuration, and
the model is handed out with its tokenizer. The file is its bytes; buffers of the
loaders are allocated without a check.

Key results: `loadLinear_stored` and `loadCpuF32_decoded`, what a tensor is kept as,
and `length_of_decodeTensor`, how many values that is: one for each element of its
shape, for every storage type but one.
-/

namespace CamelidEnterprise

open Foundation Gguf

-- ---------------------------------------------------------------------------
-- Decoding payloads
-- ---------------------------------------------------------------------------

/-- The check and the loop shared by the decoders of plain values. -/
def decodeValues (label : String) (width : Nat) (value : List UInt8 → F32) (name : Str)
    (bytes : List UInt8) (expectedElements : Nat) : EngineResult (List F32) := do
  let expectedBytes ← plainMul expectedElements width
  if bytes.length ≠ expectedBytes then
    .err (.InvalidTensorData
      s!"tensor {display name} {label} byte length {bytes.length} does not match expected {expectedBytes}")
  else .ok ((chunksExact width bytes).map value)

/-- `decode_f32_tensor` -/
def decodeF32Tensor : Str → List UInt8 → Nat → EngineResult (List F32) :=
  decodeValues "f32" 4 fun chunk => ⟨.ofNat (Cursor.fromLeBytes chunk)⟩

/-- `decode_f16_tensor` -/
def decodeF16Tensor : Str → List UInt8 → Nat → EngineResult (List F32) :=
  decodeValues "f16" 2 fun chunk => f16BitsToF32 (.ofNat (Cursor.fromLeBytes chunk))

/-- `decode_bf16_tensor` -/
def decodeBf16Tensor : Str → List UInt8 → Nat → EngineResult (List F32) :=
  decodeValues "bf16" 2 fun chunk => ⟨(UInt16.ofNat (Cursor.fromLeBytes chunk)).toUInt32 <<< 16⟩

/-- A block from its 34 bytes. -/
def Q8_0Block.ofBytes (block : List UInt8) : Q8_0Block where
  scale := f16BitsToF32 (.ofNat (Cursor.fromLeBytes (block.take 2)))
  quants := Vector.ofFn fun idx => (block.getD (idx + 2) 0).toInt8

/-- `decode_q8_0_blocks` -/
def decodeQ8_0Blocks (name : Str) (bytes : List UInt8) (expectedElements : Nat) :
    EngineResult (List Q8_0Block) := do
  if expectedElements % 32 ≠ 0 then
    .err (.InvalidTensorData
      s!"tensor {display name} q8_0 element count {expectedElements} is not divisible by 32")
  else do
    let expectedBytes ← plainMul (expectedElements / 32) 34
    if bytes.length ≠ expectedBytes then
      .err (.InvalidTensorData
        s!"tensor {display name} q8_0 byte length {bytes.length} does not match expected {expectedBytes}")
    else .ok ((chunksExact 34 bytes).map Q8_0Block.ofBytes)

/-- `decode_q8_0_tensor` -/
def decodeQ8_0Tensor [FloatOps] (name : Str) (bytes : List UInt8) (expectedElements : Nat) :
    EngineResult (List F32) := do
  let blocks ← decodeQ8_0Blocks name bytes expectedElements
  .ok (blocks.flatMap Q8_0Block.dequantize)

/-- The check and the loop shared by the decoders of the other block formats, which
do not look at the element count. -/
def decodeBlocks (label : String) (blockBytes : Nat) (decode : List UInt8 → EngineResult (List F32))
    (name : Str) (bytes : List UInt8) : EngineResult (List F32) :=
  if bytes.length % blockBytes ≠ 0 then
    .err (.InvalidTensorData
      s!"{display name}: {label} byte length {bytes.length} is not aligned to {blockBytes}-byte blocks")
  else do
    let blocks ← (chunksExact blockBytes bytes).mapM decode
    .ok blocks.flatten

section Blocks

variable [FloatOps]

/-- `decode_q4_0_tensor` -/
def decodeQ4_0Tensor := decodeBlocks "invalid tensor data: Q4_0" 18 Q4_0Block.decode

/-- `decode_q4_1_tensor` -/
def decodeQ4_1Tensor := decodeBlocks "invalid tensor data: Q4_1" 20 Q4_1Block.decode

/-- `decode_q5_0_tensor` -/
def decodeQ5_0Tensor := decodeBlocks "invalid tensor data: Q5_0" 22 Q5_0Block.decode

/-- `decode_q5_1_tensor` -/
def decodeQ5_1Tensor := decodeBlocks "invalid tensor data: Q5_1" 24 Q5_1Block.decode

/-- `decode_q2_k_tensor` -/
def decodeQ2KTensor := decodeBlocks "invalid tensor data: Q2_K" 84 Q2KBlock.decode

/-- `decode_q3_k_tensor` -/
def decodeQ3KTensor := decodeBlocks "invalid tensor data: Q3_K" 110 Q3KBlock.decode

/-- `decode_q4_k_tensor` -/
def decodeQ4KTensor := decodeBlocks "invalid tensor data: Q4_K" 144 Q4KBlock.decode

/-- `decode_q5_k_tensor` -/
def decodeQ5KTensor := decodeBlocks "invalid tensor data: Q5_K" 176 Q5KBlock.decode

/-- `decode_q6_k_tensor` -/
def decodeQ6KTensor := decodeBlocks "invalid tensor data: Q6_K" 210 Q6KBlock.decode

/-- `decode_q8_k_tensor` -/
def decodeQ8KTensor := decodeBlocks "invalid tensor data: Q8_K" 292 Q8KBlock.decode

/-- `decode_iq4_nl_tensor` -/
def decodeIq4NlTensor := decodeBlocks "invalid tensor data: IQ4_NL" 18 IQ4NLBlock.decode

/-- `decode_iq4_xs_tensor` -/
def decodeIq4XsTensor := decodeBlocks "invalid tensor data: IQ4_XS" 136 IQ4XSBlock.decode

/-- `decode_tq1_0_tensor` -/
def decodeTq1_0Tensor := decodeBlocks "TQ1_0" 54 decodeTq1_0Block

/-- `decode_tq2_0_tensor` -/
def decodeTq2_0Tensor := decodeBlocks "TQ2_0" 66 decodeTq2_0Block

/-- The decoder of a storage type. -/
def decodeTensor (ty : TensorType) (name : Str) (bytes : List UInt8)
    (expectedElements : Nat) : EngineResult (List F32) :=
  match ty with
  | .F32 => decodeF32Tensor name bytes expectedElements
  | .F16 => decodeF16Tensor name bytes expectedElements
  | .BF16 => decodeBf16Tensor name bytes expectedElements
  | .Q8_0 => decodeQ8_0Tensor name bytes expectedElements
  | .Q4_0 => decodeQ4_0Tensor name bytes
  | .Q4_1 => decodeQ4_1Tensor name bytes
  | .Q5_0 => decodeQ5_0Tensor name bytes
  | .Q5_1 => decodeQ5_1Tensor name bytes
  | .Q2K => decodeQ2KTensor name bytes
  | .Q3K => decodeQ3KTensor name bytes
  | .Q4K => decodeQ4KTensor name bytes
  | .Q5K => decodeQ5KTensor name bytes
  | .Q6K => decodeQ6KTensor name bytes
  | .Q8K => decodeQ8KTensor name bytes
  | .IQ4NL => decodeIq4NlTensor name bytes
  | .IQ4XS => decodeIq4XsTensor name bytes
  | .Tq1_0 => decodeTq1_0Tensor name bytes
  | .Tq2_0 => decodeTq2_0Tensor name bytes
  | other =>
    .err (.UnsupportedTensorType
      s!"tensor {display name} has unsupported storage type {other.debug}; supported for CPU f32 load: F32, F16, BF16, Q8_0, Q4_0, Q4_1, Q5_0, Q5_1, Q2_K, Q3_K, Q4_K, Q5_K, Q6_K, Q8_K, IQ4_NL, IQ4_XS, TQ1_0, TQ2_0")

end Blocks

-- ---------------------------------------------------------------------------
-- The tensor store
-- ---------------------------------------------------------------------------

/-- `TensorStore`: the file's path and bytes, and the descriptors of its header. -/
structure TensorStore where
  path : String
  file : List UInt8
  descriptors : List TensorDescriptor

namespace TensorStore

/-- `open` -/
def ofHeader (path : String) (file : List UInt8) (gguf : GgufFile) : TensorStore :=
  ⟨path, file, gguf.tensors⟩

/-- `descriptor`; of several descriptors of one name the map keeps the last. -/
def descriptor (store : TensorStore) (name : Str) : EngineResult TensorDescriptor :=
  Outcome.okOr (.TensorNotFound (display name))
    (store.descriptors.reverse.find? fun desc => desc.name == name)

/-- `tensor_bytes`: a seek and an exact read. -/
def tensorBytes (store : TensorStore) (name : Str) : EngineResult (List UInt8) := do
  let desc ← store.descriptor name
  Outcome.okOr (.Io store.path "failed to fill whole buffer")
    (Rows.slice store.file desc.absoluteOffset.toNat desc.nBytes.toNat)

/-- The blocks a decoded Q8_0 tensor keeps. -/
def retainedBlocks (ty : TensorType) (name : Str) (bytes : List UInt8) (expectedElements : Nat) :
    EngineResult (Option (List Q8_0Block)) :=
  if ty = .Q8_0 then some <$> decodeQ8_0Blocks name bytes expectedElements else .ok none

variable [FloatOps]

/-- `load_cpu_f32` -/
def loadCpuF32 (store : TensorStore) (name : Str) : EngineResult CpuTensor := do
  let desc ← store.descriptor name
  let bytes ← store.tensorBytes name
  let expectedElements ← CamelidEnterprise.elementCount desc.dims
  let data ← decodeTensor desc.tensorType name bytes expectedElements
  let q8_0Blocks ← retainedBlocks desc.tensorType name bytes expectedElements
  .ok
    { name
      dims := desc.dims
      sourceType := some desc.tensorType
      q8_0Blocks
      q4KWireBytes := if desc.tensorType = .Q4K then some bytes else none
      q5KWireBytes := none
      q6KWireBytes := if desc.tensorType = .Q6K then some bytes else none
      data }

/-- `load_q8_0_block_backed_linear_as` -/
def loadQ8_0BlockBackedLinearAs (store : TensorStore) (sourceName tensorName : Str) :
    EngineResult CpuTensor := do
  let desc ← store.descriptor sourceName
  if desc.tensorType ≠ .Q8_0 ∨ desc.dims.length ≠ 2 then do
    let tensor ← store.loadCpuF32 sourceName
    .ok { tensor with name := tensorName }
  else do
    let expectedElements ← CamelidEnterprise.elementCount desc.dims
    let bytes ← store.tensorBytes sourceName
    let blocks ← decodeQ8_0Blocks sourceName bytes expectedElements
    CpuTensor.fromQ8_0Blocks tensorName desc.dims blocks

/-- `load_q8_0_block_backed_linear` -/
def loadQ8_0BlockBackedLinear (store : TensorStore) (name : Str) : EngineResult CpuTensor :=
  store.loadQ8_0BlockBackedLinearAs name name

/-- A descriptor that may be missing. -/
def loadOptional (store : TensorStore) : Option TensorDescriptor → EngineResult (Option CpuTensor)
  | some desc => some <$> store.loadCpuF32 desc.name
  | none => .ok none

end TensorStore

-- ---------------------------------------------------------------------------
-- How many values a tensor is kept as
-- ---------------------------------------------------------------------------

/-- The values that are decoded for `n` elements. The header sizes a block of `Q5_1`
at 22 bytes, and the decoder takes 24. -/
def decodedCount (ty : TensorType) (n : Nat) : Nat :=
  if ty = .Q5_1 then n / 32 * 22 / 24 * 32 else n

theorem decodedCount_of_ne {ty : TensorType} (h : ty ≠ .Q5_1) (n : Nat) : decodedCount ty n = n :=
  if_neg h

/-- Blocks of `Q5_1` are decoded to fewer values than they hold. -/
theorem decodedCount_eq_iff (ty : TensorType) (n : Nat) :
    decodedCount ty n = n ↔ ty ≠ .Q5_1 ∨ n = 0 := by
  unfold decodedCount
  split
  · rename_i htype
    simp only [htype, ne_eq, not_true_eq_false, false_or]
    constructor
    · intro h
      omega
    · rintro rfl
      rfl
  · rename_i htype
    simp [htype]

theorem length_chunksExact {α : Type} (size : Nat) (xs : List α) :
    (chunksExact size xs).length = xs.length / size := by
  simp [chunksExact]

theorem length_of_decodeValues {label : String} {width : Nat} {value : List UInt8 → F32} {name : Str}
    {bytes : List UInt8} {n : Nat} {data : List F32} (hpos : 0 < width)
    (h : decodeValues label width value name bytes n = .ok data) : data.length = n := by
  obtain ⟨expectedBytes, hexpected, h⟩ := Outcome.bind_eq_ok.mp h
  have hcount := (plainMul_eq_ok.mp hexpected).1
  split at h
  · exact absurd h (by simp)
  rename_i hlength
  obtain rfl := Outcome.ok.inj h
  rw [List.length_map, length_chunksExact, not_not.mp hlength, hcount, Nat.mul_div_cancel _ hpos]

theorem length_of_decodeQ8_0Blocks {name : Str} {bytes : List UInt8} {n : Nat}
    {blocks : List Q8_0Block} (h : decodeQ8_0Blocks name bytes n = .ok blocks) :
    blocks.length * 32 = n := by
  unfold decodeQ8_0Blocks at h
  split at h
  · exact absurd h (by simp)
  rename_i haligned
  obtain ⟨expectedBytes, hexpected, h⟩ := Outcome.bind_eq_ok.mp h
  have hcount := (plainMul_eq_ok.mp hexpected).1
  split at h
  · exact absurd h (by simp)
  rename_i hlength
  obtain rfl := Outcome.ok.inj h
  rw [List.length_map, length_chunksExact, not_not.mp hlength, hcount,
    Nat.mul_div_cancel _ (by decide)]
  omega

theorem length_of_mem_chunksExact {α : Type} {size : Nat} {xs chunk : List α}
    (h : chunk ∈ chunksExact size xs) : chunk.length = size := by
  unfold chunksExact at h
  obtain ⟨i, hi, rfl⟩ := List.mem_map.mp h
  have hend := Rows.row_le (w := size) (List.mem_range.mp hi)
  have hdiv := Nat.div_mul_le_self xs.length size
  rw [List.length_take, List.length_drop]
  omega

/-- Bytes in whole blocks are decoded block after block. -/
theorem decodeBlocks_eq (label : String) {blockBytes : Nat}
    {decode : List UInt8 → EngineResult (List F32)} {values : List UInt8 → List F32}
    (hvalues : ∀ chunk, chunk.length = blockBytes → decode chunk = .ok (values chunk)) (name : Str)
    {bytes : List UInt8} (haligned : bytes.length % blockBytes = 0) :
    decodeBlocks label blockBytes decode name bytes =
      .ok ((chunksExact blockBytes bytes).flatMap values) := by
  unfold decodeBlocks
  rw [if_neg (not_not.mpr haligned), Outcome.mapM_congr fun chunk hchunk =>
    hvalues chunk (length_of_mem_chunksExact hchunk), Outcome.mapM_ok, Outcome.ok_bind]
  rfl

theorem decodeBlocks_eq_ok {label : String} {blockBytes : Nat}
    {decode : List UInt8 → EngineResult (List F32)} {values : List UInt8 → List F32}
    (hvalues : ∀ chunk, chunk.length = blockBytes → decode chunk = .ok (values chunk)) {name : Str}
    {bytes : List UInt8} {data : List F32}
    (h : decodeBlocks label blockBytes decode name bytes = .ok data) :
    data = (chunksExact blockBytes bytes).flatMap values := by
  by_cases haligned : bytes.length % blockBytes = 0
  · rw [decodeBlocks_eq label hvalues name haligned] at h
    exact (Outcome.ok.inj h).symm
  · unfold decodeBlocks at h
    rw [if_pos haligned] at h
    exact absurd h (by simp)

theorem length_of_decodeBlocks {label : String} {blockBytes count : Nat}
    {decode : List UInt8 → EngineResult (List F32)} (hdecodes : Decodes decode blockBytes count)
    {name : Str} {bytes : List UInt8} {data : List F32}
    (h : decodeBlocks label blockBytes decode name bytes = .ok data) :
    data.length = bytes.length / blockBytes * count := by
  obtain ⟨values, hlength, hvalues⟩ := hdecodes.values
  rw [decodeBlocks_eq_ok hvalues h, Rows.length_flatMap_blocks hlength, length_chunksExact]

/-- The payload has as many bytes as the header gives `n` elements of the type. -/
def SizedPayload (ty : TensorType) (n byteCount : Nat) : Prop :=
  ∃ block size, ty.layout = some (block, size) ∧ block.toNat ∣ n ∧
    byteCount = n / block.toNat * size.toNat

/-- A payload in blocks of the sizes the header takes them to have. -/
theorem length_of_decodeBlocks_sized {ty : TensorType} {label : String} {block size : UInt64}
    {decode : List UInt8 → EngineResult (List F32)}
    (hdecodes : Decodes decode size.toNat block.toNat) {name : Str} {bytes : List UInt8}
    {data : List F32} {n : Nat} (hlayout : ty.layout = some (block, size)) (hpos : 0 < size.toNat)
    (hsized : SizedPayload ty n bytes.length)
    (h : decodeBlocks label size.toNat decode name bytes = .ok data) : data.length = n := by
  obtain ⟨block', size', hlayout', hdvd, hlength⟩ := hsized
  obtain ⟨rfl, rfl⟩ := Prod.mk.inj (Option.some.inj (hlayout.symm.trans hlayout'))
  rw [length_of_decodeBlocks hdecodes h, hlength, Nat.mul_div_cancel _ hpos, Nat.div_mul_cancel hdvd]

/-- A decoder returns one value for each element, but for `Q5_1`. -/
theorem length_of_decodeTensor [FloatOps] {ty : TensorType} {name : Str}
    {bytes : List UInt8} {n : Nat} {data : List F32} (hsized : SizedPayload ty n bytes.length)
    (h : decodeTensor ty name bytes n = .ok data) : data.length = decodedCount ty n := by
  have hblocks : ∀ {block size : UInt64} {label : String}
      {decode : List UInt8 → EngineResult (List F32)}, Decodes decode size.toNat block.toNat →
      ty.layout = some (block, size) → 0 < size.toNat → ty ≠ .Q5_1 →
      decodeBlocks label size.toNat decode name bytes = .ok data →
      data.length = decodedCount ty n := by
    intro block size label decode hdecodes hlayout hpos hne hdecoded
    rw [decodedCount_of_ne hne]
    exact length_of_decodeBlocks_sized hdecodes hlayout hpos hsized hdecoded
  have hvalues : ∀ {label : String} {width : Nat} {value : List UInt8 → F32}, 0 < width →
      ty ≠ .Q5_1 → decodeValues label width value name bytes n = .ok data →
      data.length = decodedCount ty n := by
    intro label width value hpos hne hdecoded
    rw [decodedCount_of_ne hne]
    exact length_of_decodeValues hpos hdecoded
  cases ty with
  | F32 => exact hvalues (by decide) (by decide) h
  | F16 => exact hvalues (by decide) (by decide) h
  | BF16 => exact hvalues (by decide) (by decide) h
  | Q8_0 =>
    obtain ⟨blocks, hdecoded, h⟩ := Outcome.bind_eq_ok.mp h
    obtain rfl := Outcome.ok.inj h
    rw [Rows.length_flatMap_blocks Q8_0Block.length_dequantize, length_of_decodeQ8_0Blocks hdecoded]
    rfl
  | Q5_1 =>
    -- the one type whose blocks the decoder takes to be longer
    obtain ⟨block, size, hlayout, hdvd, hlength⟩ := hsized
    obtain ⟨rfl, rfl⟩ := Prod.mk.inj (Option.some.inj hlayout)
    rw [length_of_decodeBlocks Q5_1Block.decodes h, hlength]
    rfl
  | Q4_0 => exact hblocks Q4_0Block.decodes rfl (by decide) (by decide) h
  | Q4_1 => exact hblocks Q4_1Block.decodes rfl (by decide) (by decide) h
  | Q5_0 => exact hblocks Q5_0Block.decodes rfl (by decide) (by decide) h
  | Q2K => exact hblocks Q2KBlock.decodes rfl (by decide) (by decide) h
  | Q3K => exact hblocks Q3KBlock.decodes rfl (by decide) (by decide) h
  | Q4K => exact hblocks Q4KBlock.decodes rfl (by decide) (by decide) h
  | Q5K => exact hblocks Q5KBlock.decodes rfl (by decide) (by decide) h
  | Q6K => exact hblocks Q6KBlock.decodes rfl (by decide) (by decide) h
  | Q8K => exact hblocks Q8KBlock.decodes rfl (by decide) (by decide) h
  | IQ4NL => exact hblocks IQ4NLBlock.decodes rfl (by decide) (by decide) h
  | IQ4XS => exact hblocks IQ4XSBlock.decodes rfl (by decide) (by decide) h
  | Tq1_0 => exact hblocks decodeTq1_0Block_decodes rfl (by decide) (by decide) h
  | Tq2_0 => exact hblocks decodeTq2_0Block_decodes rfl (by decide) (by decide) h
  | Q8_1 => exact absurd h (by simp [decodeTensor])
  | I8 => exact absurd h (by simp [decodeTensor])
  | I16 => exact absurd h (by simp [decodeTensor])
  | I32 => exact absurd h (by simp [decodeTensor])
  | I64 => exact absurd h (by simp [decodeTensor])
  | F64 => exact absurd h (by simp [decodeTensor])
  | NVFP4 => exact absurd h (by simp [decodeTensor])
  | Unknown id => exact absurd h (by simp [decodeTensor])

-- ---------------------------------------------------------------------------
-- Loaded tensors
-- ---------------------------------------------------------------------------

/-- The descriptors size their payloads as the header's parser does. -/
def TensorStore.WellSized (store : TensorStore) : Prop :=
  ∀ desc ∈ store.descriptors, Sized desc.dimensions desc.tensorType desc.nBytes

/-- The store over a header that was accepted. -/
theorem TensorStore.ofHeader_wellSized {bytes : List UInt8} {declaredLen : UInt64}
    {gguf : GgufFile} (h : readMetadataWithLen bytes declaredLen = .ok gguf) (path : String)
    (file : List UInt8) : (TensorStore.ofHeader path file gguf).WellSized := by
  obtain ⟨headerLen, -, hlaid⟩ := wellLaidOut_of_ok h
  exact hlaid.sized

theorem TensorStore.descriptor_eq_ok {store : TensorStore} {name : Str} {desc : TensorDescriptor}
    (h : store.descriptor name = .ok desc) : desc ∈ store.descriptors ∧ desc.name = name := by
  have hfound := Outcome.okOr_eq_ok.mp h
  have hname := List.find?_some hfound
  exact ⟨by simpa using List.mem_of_find?_eq_some hfound, by simpa using hname⟩

/-- The payload of a well-sized descriptor. -/
theorem TensorStore.tensorBytes_eq_ok {store : TensorStore} (hwell : store.WellSized) {name : Str}
    {desc : TensorDescriptor} {bytes : List UInt8} (hdesc : store.descriptor name = .ok desc)
    (h : store.tensorBytes name = .ok bytes) :
    SizedPayload desc.tensorType desc.dims.prod bytes.length := by
  obtain ⟨desc', hdesc', h⟩ := Outcome.bind_eq_ok.mp h
  obtain rfl := Outcome.ok.inj (hdesc.symm.trans hdesc')
  obtain ⟨block, size, hlayout, hdvd, hbytes⟩ := hwell desc (descriptor_eq_ok hdesc).1
  have hlength := Rows.length_of_slice (Outcome.okOr_eq_ok.mp h)
  exact ⟨block, size, hlayout, hdvd, hlength.trans hbytes⟩

section Loaded

variable [FloatOps]

/-- A tensor whose payload was decoded to plain values. -/
structure CpuTensor.Decoded (tensor : CpuTensor) (desc : TensorDescriptor) (bytes : List UInt8) :
    Prop where
  dims_eq : tensor.dims = desc.dims
  sourceType_eq : tensor.sourceType = some desc.tensorType
  data_eq : ∃ name, decodeTensor desc.tensorType name bytes desc.dims.prod = .ok tensor.data
  blocks_eq : ∃ name, TensorStore.retainedBlocks desc.tensorType name bytes desc.dims.prod =
    .ok tensor.q8_0Blocks
  q4KWireBytes_eq : tensor.q4KWireBytes = if desc.tensorType = .Q4K then some bytes else none
  q5KWireBytes_eq : tensor.q5KWireBytes = none
  q6KWireBytes_eq : tensor.q6KWireBytes = if desc.tensorType = .Q6K then some bytes else none

/-- A matrix whose payload was decoded to blocks. -/
structure CpuTensor.Blocked (tensor : CpuTensor) (desc : TensorDescriptor) (bytes : List UInt8) :
    Prop where
  dims_eq : tensor.dims = desc.dims
  tensorType_eq : desc.tensorType = .Q8_0
  sourceType_eq : tensor.sourceType = some .Q8_0
  blocks_eq : ∃ name blocks, decodeQ8_0Blocks name bytes desc.dims.prod = .ok blocks ∧
    tensor.q8_0Blocks = some blocks
  data_eq : tensor.data = []
  q4KWireBytes_eq : tensor.q4KWireBytes = none
  q5KWireBytes_eq : tensor.q5KWireBytes = none
  q6KWireBytes_eq : tensor.q6KWireBytes = none

omit [FloatOps] in
theorem CpuTensor.fromQ8_0Blocks_eq_ok {name : Str} {dims : List Nat} {blocks : List Q8_0Block}
    {tensor : CpuTensor} (h : CpuTensor.fromQ8_0Blocks name dims blocks = .ok tensor) :
    tensor =
        { name, dims, sourceType := some .Q8_0, q8_0Blocks := some blocks, q4KWireBytes := none
          q5KWireBytes := none, q6KWireBytes := none, data := [] } ∧
      ∀ name', CpuTensor.fromQ8_0Blocks name' dims blocks = .ok { tensor with name := name' } := by
  obtain ⟨count, hcount, h⟩ := Outcome.bind_eq_ok.mp h
  split at h
  · exact absurd h (by simp)
  rename_i haligned
  dsimp only at h
  split at h
  · exact absurd h (by simp)
  rename_i hcounted
  obtain rfl := Outcome.ok.inj h
  refine ⟨rfl, fun name' => ?_⟩
  unfold CpuTensor.fromQ8_0Blocks
  rw [hcount, Outcome.ok_bind, if_neg haligned, if_neg hcounted]

theorem TensorStore.loadCpuF32_decoded {store : TensorStore} {name : Str} {tensor : CpuTensor}
    (h : store.loadCpuF32 name = .ok tensor) :
    ∃ desc bytes, store.descriptor name = .ok desc ∧ store.tensorBytes name = .ok bytes ∧
      tensor.Decoded desc bytes := by
  obtain ⟨desc, hdesc, h⟩ := Outcome.bind_eq_ok.mp h
  obtain ⟨bytes, hbytes, h⟩ := Outcome.bind_eq_ok.mp h
  obtain ⟨count, hcount, h⟩ := Outcome.bind_eq_ok.mp h
  obtain ⟨data, hdata, h⟩ := Outcome.bind_eq_ok.mp h
  obtain ⟨blocks, hblocks, h⟩ := Outcome.bind_eq_ok.mp h
  obtain rfl := Outcome.ok.inj h
  obtain rfl := elementCount_eq_ok hcount
  exact ⟨desc, bytes, hdesc, hbytes, rfl, rfl, ⟨name, hdata⟩, ⟨name, hblocks⟩, rfl, rfl, rfl⟩

/-- A linear is kept as blocks where it is a Q8_0 matrix, and decoded otherwise. -/
theorem TensorStore.loadLinear_stored {store : TensorStore} {sourceName tensorName : Str}
    {tensor : CpuTensor}
    (h : store.loadQ8_0BlockBackedLinearAs sourceName tensorName = .ok tensor) :
    ∃ desc bytes, store.descriptor sourceName = .ok desc ∧
      store.tensorBytes sourceName = .ok bytes ∧
      ((desc.tensorType ≠ .Q8_0 ∨ desc.dims.length ≠ 2) ∧ tensor.Decoded desc bytes ∨
        desc.dims.length = 2 ∧ tensor.Blocked desc bytes) := by
  obtain ⟨desc, hdesc, h⟩ := Outcome.bind_eq_ok.mp h
  split at h
  · rename_i hplain
    obtain ⟨plain, hload, h⟩ := Outcome.bind_eq_ok.mp h
    obtain rfl := Outcome.ok.inj h
    obtain ⟨desc', bytes, hdesc', hbytes, hdecoded⟩ := loadCpuF32_decoded hload
    obtain rfl := Outcome.ok.inj (hdesc.symm.trans hdesc')
    exact ⟨desc, bytes, hdesc, hbytes, .inl ⟨hplain, hdecoded.dims_eq, hdecoded.sourceType_eq,
      hdecoded.data_eq, hdecoded.blocks_eq, hdecoded.q4KWireBytes_eq, hdecoded.q5KWireBytes_eq,
      hdecoded.q6KWireBytes_eq⟩⟩
  · rename_i hmatrix
    obtain ⟨htype, hrank⟩ := not_or.mp hmatrix
    obtain ⟨count, hcount, h⟩ := Outcome.bind_eq_ok.mp h
    obtain ⟨bytes, hbytes, h⟩ := Outcome.bind_eq_ok.mp h
    obtain ⟨blocks, hblocks, h⟩ := Outcome.bind_eq_ok.mp h
    rw [elementCount_eq_ok hcount] at hblocks
    obtain ⟨rfl, -⟩ := CpuTensor.fromQ8_0Blocks_eq_ok h
    exact ⟨desc, bytes, hdesc, hbytes, .inr ⟨not_not.mp hrank, rfl, not_not.mp htype, rfl,
      ⟨sourceName, blocks, hblocks, rfl⟩, rfl, rfl, rfl, rfl⟩⟩

/-- How many values a matrix is kept as: blocks of a Q8_0 matrix, plain values of any
other. -/
theorem TensorStore.loadLinear_sized {store : TensorStore} (hwell : store.WellSized)
    {sourceName tensorName : Str} {tensor : CpuTensor} {desc : TensorDescriptor}
    (hdesc : store.descriptor sourceName = .ok desc) (hrank : desc.dims.length = 2)
    (h : store.loadQ8_0BlockBackedLinearAs sourceName tensorName = .ok tensor) :
    tensor.dims = desc.dims ∧
      match tensor.q8_0Blocks with
      | some blocks => desc.tensorType = .Q8_0 ∧ blocks.length * 32 = desc.dims.prod
      | none => desc.tensorType ≠ .Q8_0 ∧
        tensor.data.length = decodedCount desc.tensorType desc.dims.prod := by
  obtain ⟨desc', bytes, hdesc', hbytes, hstored⟩ := loadLinear_stored h
  obtain rfl := Outcome.ok.inj (hdesc.symm.trans hdesc')
  rcases hstored with ⟨hplain, hdecoded⟩ | ⟨-, hblocked⟩
  · have htype : desc.tensorType ≠ .Q8_0 := hplain.resolve_right (not_not.mpr hrank)
    obtain ⟨name, hblocks⟩ := hdecoded.blocks_eq
    rw [retainedBlocks, if_neg htype] at hblocks
    obtain ⟨name', hdata⟩ := hdecoded.data_eq
    rw [← Outcome.ok.inj hblocks]
    exact ⟨hdecoded.dims_eq, htype,
      length_of_decodeTensor (tensorBytes_eq_ok hwell hdesc hbytes) hdata⟩
  · obtain ⟨name, blocks, hblocks, hsome⟩ := hblocked.blocks_eq
    rw [hsome]
    exact ⟨hblocked.dims_eq, hblocked.tensorType_eq, length_of_decodeQ8_0Blocks hblocks⟩

/-- Only its name depends on the name a linear is loaded as. -/
theorem TensorStore.loadLinear_renamed {store : TensorStore} {sourceName tensorName : Str}
    {tensor : CpuTensor}
    (h : store.loadQ8_0BlockBackedLinearAs sourceName tensorName = .ok tensor) (name : Str) :
    store.loadQ8_0BlockBackedLinearAs sourceName name = .ok { tensor with name } := by
  obtain ⟨desc, hdesc, h⟩ := Outcome.bind_eq_ok.mp h
  unfold loadQ8_0BlockBackedLinearAs
  rw [hdesc, Outcome.ok_bind]
  split at h
  · rename_i hplain
    obtain ⟨plain, hload, h⟩ := Outcome.bind_eq_ok.mp h
    obtain rfl := Outcome.ok.inj h
    rw [if_pos hplain, hload]
    rfl
  · rename_i hmatrix
    obtain ⟨count, hcount, h⟩ := Outcome.bind_eq_ok.mp h
    obtain ⟨bytes, hbytes, h⟩ := Outcome.bind_eq_ok.mp h
    obtain ⟨blocks, hblocks, h⟩ := Outcome.bind_eq_ok.mp h
    rw [if_neg hmatrix, hcount, Outcome.ok_bind, hbytes, Outcome.ok_bind, hblocks, Outcome.ok_bind]
    exact (CpuTensor.fromQ8_0Blocks_eq_ok h).2 name

end Loaded

-- ---------------------------------------------------------------------------
-- Weights
-- ---------------------------------------------------------------------------

/-- `normalize_token_embedding_shape` -/
def normalizeTokenEmbeddingShape (tensor : CpuTensor) (name : Str) : EngineResult CpuTensor :=
  match tensor.dims with
  | [d0, d1] => .ok { tensor with dims := if d0 < d1 then [d1, d0] else [d0, d1] }
  | _ =>
    .err (.ShapeMismatch
      s!"token embedding tensor {display name} expected rank 2, got {debugDims tensor.dims}")

variable [FloatOps]

/-- One pass of the loop over the layers. -/
def LlamaLayerWeights.load (store : TensorStore) (layer : LlamaLayerTensors) :
    EngineResult LlamaLayerWeights := do
  let attentionQNorm ← store.loadOptional layer.attentionQNorm
  let attentionKNorm ← store.loadOptional layer.attentionKNorm
  let attentionNorm ← store.loadCpuF32 layer.attentionNorm.name
  let attentionQ ← store.loadQ8_0BlockBackedLinear layer.attentionQ.name
  let attentionK ← store.loadQ8_0BlockBackedLinear layer.attentionK.name
  let attentionV ← store.loadQ8_0BlockBackedLinear layer.attentionV.name
  let attentionOutput ← store.loadQ8_0BlockBackedLinear layer.attentionOutput.name
  let ffnNorm ← store.loadCpuF32 layer.ffnNorm.name
  let ffnGate ← store.loadQ8_0BlockBackedLinear layer.ffn.gate.name
  let ffnUp ← store.loadQ8_0BlockBackedLinear layer.ffn.up.name
  let ffnDown ← store.loadQ8_0BlockBackedLinear layer.ffn.down.name
  .ok
    { attentionNorm, attentionQ, attentionK, attentionV, attentionOutput, attentionQNorm
      attentionKNorm, ffnNorm, ffnGate, ffnUp, ffnDown }

/-- The output projection: of a tied model, the bytes of the token embedding once
more. -/
def loadOutput (store : TensorStore) (binding : LlamaTensorBinding) : EngineResult CpuTensor :=
  if binding.outputIsTiedEmbedding then
    store.loadQ8_0BlockBackedLinearAs binding.tokenEmbedding.name "output.weight".toList
  else store.loadQ8_0BlockBackedLinear binding.output.name

/-- `LlamaWeights::load` -/
def LlamaWeights.load (store : TensorStore) (binding : LlamaTensorBinding) :
    EngineResult LlamaWeights := do
  let stored ← store.loadQ8_0BlockBackedLinear binding.tokenEmbedding.name
  let tokenEmbedding ← normalizeTokenEmbeddingShape stored binding.tokenEmbedding.name
  let outputNorm ← store.loadCpuF32 binding.outputNorm.name
  let output ← loadOutput store binding
  let ropeFreqs ← store.loadOptional binding.ropeFreqs
  let layers ← binding.layers.mapM (LlamaLayerWeights.load store)
  .ok { tokenEmbedding, outputNorm, output := some output, ropeFreqs, layers }

-- ---------------------------------------------------------------------------
-- The load pipeline
-- ---------------------------------------------------------------------------

/-- What a load hands out: the tokenizer, and the model with its projection. -/
structure LoadedDense where
  tokenizer : Tokenizer
  dense : DenseModel

/-- The loaded model, as its decode loops drive it. -/
def LoadedDense.model (loaded : LoadedDense) : LoadedModel LlamaKvCache CpuTensor :=
  ⟨loaded.tokenizer, loaded.dense.forwardPass⟩

/-- `from_components`. The weights' check derives the dimensions first, and ends
with their error where there are none. -/
def LoadedDense.fromComponents (config : LlamaModelConfig) (tokenizer : Tokenizer)
    (weights : LlamaWeights) (projection : Q8Projection) : EngineResult LoadedDense :=
  match hdims : DenseLlamaDims.fromConfig config, hshapes : weights.validateDenseShapes config with
  | .ok dims, .ok () =>
    if tokenizer.tokens.length ≠ dims.vocabSize then
      .err (.InvalidTokenizerMetadata
        s!"tokenizer vocabulary has {tokenizer.tokens.length} entries but the model expects {dims.vocabSize}")
    else .ok ⟨tokenizer, ⟨config, weights, projection, dims, hdims, hshapes⟩⟩
  | .ok _, .err e => .err e
  | .ok _, .fault k => .fault k
  | .err e, _ => .err e
  | .fault k, _ => .fault k

/-- `load_with_q8_projection`, on the path and the bytes of a file. -/
def LoadedDense.load (path : String) (file : List UInt8) (projection : Q8Projection) :
    EngineResult LoadedDense := do
  let gguf ← readMetadataWithLen file (.ofNat file.length)
  let _ ← Outcome.okOr
    (.InvalidModelMetadata "required metadata general.architecture is missing") gguf.architecture
  let config ← LlamaModelConfig.fromGguf gguf
  let tokenizer ← Tokenizer.fromGguf gguf
  expandFusedDenseTensors gguf config
  let binding ← LlamaTensorBinding.bind gguf config
  let weights ← LlamaWeights.load (TensorStore.ofHeader path file gguf) binding
  LoadedDense.fromComponents config tokenizer weights projection

end CamelidEnterprise

import CamelidEnterprise.Engine.LoadShapes

/-!
# Camelid Enterprise — the loaders of a store

Every loader of `crates/engine-core/src/tensor/store.rs`, over the descriptors of a
header that was accepted: those that keep a linear as the bytes of its blocks, and
the one that takes the bytes of a descriptor without a store. `Engine/Load.lean` has
the two the dense decoder loads its weights with.

* `Loader.run_fits_iff` — the size the header gives a tensor is the size its decoder
  takes, for every type but `Q5_1`: then a loader refuses the type or returns a
  tensor of the declared shape.
-/

namespace CamelidEnterprise

open Foundation Gguf

/-- `CpuTensor`, with the wire bytes that only the wire loaders keep. -/
structure WireTensor extends CpuTensor where
  tq2_0WireBytes : Option (List UInt8)
  iq4XsWireBytes : Option (List UInt8)
deriving DecidableEq

namespace WireTensor

/-- A tensor of the other loaders. -/
def ofCpu (tensor : CpuTensor) : WireTensor :=
  { tensor with tq2_0WireBytes := none, iq4XsWireBytes := none }

/-- A linear of which nothing is kept but, by one of the fields, its bytes. -/
def empty (name : Str) (dims : List Nat) (ty : TensorType) : WireTensor where
  name
  dims
  sourceType := some ty
  q8_0Blocks := none
  q4KWireBytes := none
  q5KWireBytes := none
  q6KWireBytes := none
  tq2_0WireBytes := none
  iq4XsWireBytes := none
  data := []

/-- The wire bytes that are kept for a type. -/
def wireBytes (tensor : WireTensor) : TensorType → Option (List UInt8)
  | .Q4K => tensor.q4KWireBytes
  | .Q5K => tensor.q5KWireBytes
  | .Q6K => tensor.q6KWireBytes
  | .Tq2_0 => tensor.tq2_0WireBytes
  | .IQ4XS => tensor.iq4XsWireBytes
  | _ => none

end WireTensor

namespace TensorStore

variable [FloatOps]

/-- `load_cpu_f32`, as the loaders that fall back on it return it. -/
def loadPlain (store : TensorStore) (name : Str) : EngineResult WireTensor :=
  (store.loadCpuF32 name).map WireTensor.ofCpu

/-- `load_kquant_wire_linear`, of a matrix in one of the K-quants. -/
def kquantWireLinear (store : TensorStore) (desc : TensorDescriptor) (name : Str) :
    EngineResult WireTensor :=
  match desc.tensorType with
  | .Q4K => do
    let bytes ← store.tensorBytes name
    .ok { WireTensor.empty name desc.dims .Q4K with q4KWireBytes := some bytes }
  | .Q5K => do
    let bytes ← store.tensorBytes name
    .ok { WireTensor.empty name desc.dims .Q5K with q5KWireBytes := some bytes }
  | .Q6K => do
    let bytes ← store.tensorBytes name
    .ok { WireTensor.empty name desc.dims .Q6K with q6KWireBytes := some bytes }
  | other =>
    .err (.UnsupportedTensorType
      s!"tensor {display name} has storage type {other.debug}; wire-only linear load supports Q4_K, Q5_K, Q6_K (a 2-D {other.debug} linear has no block-streaming CPU kernel, and full f32 materialization of a wire-only linear is refused)")

/-- `load_kquant_wire_linear` -/
def loadKquantWireLinear (store : TensorStore) (name : Str) : EngineResult WireTensor := do
  let desc ← store.descriptor name
  if desc.tensorType ∉ [.Q4K, .Q5K, .Q6K, .Q2K, .Q3K] ∨ desc.dims.length ≠ 2 then
    store.loadPlain name
  else store.kquantWireLinear desc name

/-- `load_tq2_0_wire_linear` -/
def loadTq2_0WireLinear (store : TensorStore) (name : Str) : EngineResult WireTensor := do
  let desc ← store.descriptor name
  if desc.tensorType ≠ .Tq2_0 ∨ desc.dims.length ≠ 2 then store.loadPlain name
  else do
    let bytes ← store.tensorBytes name
    .ok { WireTensor.empty name desc.dims desc.tensorType with tq2_0WireBytes := some bytes }

/-- `load_iq4_xs_wire_linear` -/
def loadIq4XsWireLinear (store : TensorStore) (name : Str) : EngineResult WireTensor := do
  let desc ← store.descriptor name
  if desc.tensorType ≠ .IQ4XS ∨ desc.dims.length ≠ 2 then store.loadPlain name
  else do
    let bytes ← store.tensorBytes name
    .ok { WireTensor.empty name desc.dims desc.tensorType with iq4XsWireBytes := some bytes }

end TensorStore

/-- `cpu_tensor_from_gguf_bytes` -/
def cpuTensorFromGgufBytes [FloatOps] (name : Str) (tensorType : TensorType) (dims : List Nat)
    (bytes : List UInt8) : EngineResult CpuTensor := do
  let expectedElements ← elementCount dims
  match tensorType with
  | .F32 => do
    let data ← decodeF32Tensor name bytes expectedElements
    CpuTensor.fromF32 name dims data
  | .F16 => do
    let data ← decodeF16Tensor name bytes expectedElements
    CpuTensor.fromF32 name dims data
  | .BF16 => do
    let data ← decodeBf16Tensor name bytes expectedElements
    CpuTensor.fromF32 name dims data
  | .Q8_0 =>
    if dims.length = 2 then do
      let blocks ← decodeQ8_0Blocks name bytes expectedElements
      CpuTensor.fromQ8_0Blocks name dims blocks
    else do
      let data ← decodeQ8_0Tensor name bytes expectedElements
      CpuTensor.fromF32 name dims data
  | other =>
    .err (.UnsupportedTensorType
      s!"tensor {display name} has storage type {other.debug}; ghost v1 supports F32, F16, BF16, Q8_0")

/-- The loaders: five of a store, of which one renames what it loads, and the one that
is given the bytes. -/
inductive Loader
  | cpuF32
  | q8_0BlockBackedLinearAs (tensorName : Str)
  | kquantWireLinear
  | tq2_0WireLinear
  | iq4XsWireLinear
  | ggufBytes
deriving DecidableEq

/-- A loader on a descriptor, with the bytes of it. -/
def Loader.run [FloatOps] (store : TensorStore) (desc : TensorDescriptor)
    (bytes : List UInt8) : Loader → EngineResult WireTensor
  | .cpuF32 => store.loadPlain desc.name
  | .q8_0BlockBackedLinearAs tensorName =>
    (store.loadQ8_0BlockBackedLinearAs desc.name tensorName).map WireTensor.ofCpu
  | .kquantWireLinear => store.loadKquantWireLinear desc.name
  | .tq2_0WireLinear => store.loadTq2_0WireLinear desc.name
  | .iq4XsWireLinear => store.loadIq4XsWireLinear desc.name
  | .ggufBytes =>
    (cpuTensorFromGgufBytes desc.name desc.tensorType desc.dims bytes).map WireTensor.ofCpu

-- ---------------------------------------------------------------------------
-- Tensors that fit their shape
-- ---------------------------------------------------------------------------

/-- A tensor of the shape: its values are all there, or its blocks are, and whatever is
kept of blocks or of their bytes is as much as the shape needs. -/
structure WireTensor.Fits (tensor : WireTensor) (dims : List Nat) : Prop where
  dims_eq : tensor.dims = dims
  stored : tensor.data.length = dims.prod ∨
    tensor.data = [] ∧ (tensor.q8_0Blocks.isSome ∨ ∃ ty, (tensor.wireBytes ty).isSome)
  blocks_length : ∀ blocks ∈ tensor.q8_0Blocks, blocks.length * 32 = dims.prod
  wire_length : ∀ ty, ∀ bytes ∈ tensor.wireBytes ty, SizedPayload ty dims.prod bytes.length

/-- What a load ends in: the type is refused, or the tensor has the shape. -/
def LoadFits (dims : List Nat) (result : EngineResult WireTensor) : Prop :=
  (∃ message, result = .err (.UnsupportedTensorType message)) ∨
    ∃ tensor, result = .ok tensor ∧ tensor.Fits dims

theorem WireTensor.Fits.congr {tensor tensor' : WireTensor} {dims : List Nat} (h : tensor.Fits dims)
    (hdims : tensor'.dims = tensor.dims) (hdata : tensor'.data = tensor.data)
    (hblocks : tensor'.q8_0Blocks = tensor.q8_0Blocks)
    (hwire : ∀ ty, tensor'.wireBytes ty = tensor.wireBytes ty) : tensor'.Fits dims where
  dims_eq := hdims.trans h.dims_eq
  stored := by
    simp only [hdata, hblocks, hwire]
    exact h.stored
  blocks_length := hblocks ▸ h.blocks_length
  wire_length := by
    simp only [hwire]
    exact h.wire_length

theorem loadFits_ok {dims : List Nat} {tensor : WireTensor} :
    LoadFits dims (.ok tensor) ↔ tensor.Fits dims := by
  simp [LoadFits]

-- ---------------------------------------------------------------------------
-- Sizes of the header
-- ---------------------------------------------------------------------------

/-- Every descriptor that is placed was sized. -/
theorem Gguf.tensorNbytes_of_placed {alignment dataStartOffset declaredLen : UInt64}
    {raws : List RawTensor} {seenNames : List Str} {expectedOffset : UInt64}
    {tensors : List TensorDescriptor}
    (h : placeTensors alignment dataStartOffset declaredLen raws seenNames expectedOffset =
      .ok tensors) :
    ∀ desc ∈ tensors, tensorNbytes desc.name desc.dimensions desc.tensorType = .ok desc.nBytes := by
  induction raws generalizing seenNames expectedOffset tensors with
  | nil =>
    obtain rfl := Outcome.ok.inj h
    simp
  | cons raw raws ih =>
    rw [placeTensors] at h
    split at h
    · exact absurd h (by simp)
    split at h
    · exact absurd h (by simp)
    obtain ⟨nBytes, hbytes, h⟩ := Outcome.bind_eq_ok.mp h
    obtain ⟨absoluteOffset, -, h⟩ := Outcome.bind_eq_ok.mp h
    obtain ⟨finish, -, h⟩ := Outcome.bind_eq_ok.mp h
    split at h
    · exact absurd h (by simp)
    obtain ⟨span, -, h⟩ := Outcome.bind_eq_ok.mp h
    obtain ⟨next, -, h⟩ := Outcome.bind_eq_ok.mp h
    obtain ⟨rest, hrest, h⟩ := Outcome.bind_eq_ok.mp h
    obtain rfl := Outcome.ok.inj h
    intro desc hdesc
    rcases List.mem_cons.mp hdesc with rfl | hdesc
    · exact hbytes
    · exact ih hrest desc hdesc

/-- The two products over the dimensions are taken in one order, so that neither leaves
the word where the other does not. -/
theorem elementCount_of_gguf {name : Str} {dimensions : List UInt64} {start count : UInt64}
    (h : Gguf.elementCount name dimensions start = .ok count) :
    (dimensions.map UInt64.toNat).foldlM (fun acc dim =>
      (Outcome.okOr (.InvalidTensorData "tensor element count overflow") (checkedMul acc dim) :
        EngineResult Nat)) start.toNat = .ok count.toNat := by
  induction dimensions generalizing start with
  | nil =>
    obtain rfl := Outcome.ok.inj h
    rfl
  | cons dim dims ih =>
    obtain ⟨product, hproduct, hrest⟩ := Outcome.bind_eq_ok.mp h
    have hmul := Word.checkedMul_eq_some.mp (Outcome.okOr_eq_ok.mp hproduct)
    have hfits : checkedMul start.toNat dim.toNat = some product.toNat :=
      checkedMul_eq_some.mpr ⟨hmul, hmul ▸ product.toNat_lt⟩
    rw [List.map_cons, List.foldlM_cons, hfits]
    exact ih hrest

/-- The element count of a descriptor that was sized. -/
theorem elementCount_of_nbytes {desc : TensorDescriptor}
    (h : tensorNbytes desc.name desc.dimensions desc.tensorType = .ok desc.nBytes) :
    elementCount desc.dims = .ok desc.dims.prod := by
  obtain ⟨⟨block, size⟩, -, h⟩ := Outcome.bind_eq_ok.mp h
  dsimp only at h
  split at h
  · exact absurd h (by simp)
  obtain ⟨count, hcount, -⟩ := Outcome.bind_eq_ok.mp h
  have hloaded : elementCount desc.dims = .ok count.toNat := elementCount_of_gguf hcount
  rw [hloaded, elementCount_eq_ok hloaded]

/-- The descriptor is the store's, the bytes are its payload, and both have the size
that was declared. -/
structure TensorStore.Holds (store : TensorStore) (desc : TensorDescriptor) (bytes : List UInt8) :
    Prop where
  descriptor : store.descriptor desc.name = .ok desc
  tensorBytes : store.tensorBytes desc.name = .ok bytes
  elementCount : CamelidEnterprise.elementCount desc.dims = .ok desc.dims.prod
  sized : SizedPayload desc.tensorType desc.dims.prod bytes.length
  length_lt : bytes.length < 2 ^ 64

theorem TensorStore.holds_of_mem {file : List UInt8} {declaredLen : UInt64} {gguf : GgufFile}
    (hgguf : readMetadataWithLen file declaredLen = .ok gguf) {path : String} {data : List UInt8}
    {desc : TensorDescriptor} (hdesc : desc ∈ gguf.tensors) {bytes : List UInt8}
    (hbytes : (ofHeader path data gguf).tensorBytes desc.name = .ok bytes) :
    (ofHeader path data gguf).Holds desc bytes := by
  obtain ⟨headerLen, -, hlaid⟩ := wellLaidOut_of_ok hgguf
  obtain ⟨header, entries, descriptors, rawTensors, -, -, -, -, -, -, -, -, hplaced⟩ :=
    readMetadataWithLen_steps hgguf
  have hfound := descriptor_of_mem path data hlaid.namesUnique hdesc
  obtain ⟨desc', hfound', hslice⟩ := Outcome.bind_eq_ok.mp hbytes
  obtain rfl := Outcome.ok.inj (hfound.symm.trans hfound')
  have hlength := Rows.length_of_slice (Outcome.okOr_eq_ok.mp hslice)
  exact {
    descriptor := hfound
    tensorBytes := hbytes
    elementCount := elementCount_of_nbytes (tensorNbytes_of_placed hplaced desc hdesc)
    sized := tensorBytes_eq_ok (ofHeader_wellSized hgguf path data) hfound hbytes
    length_lt := hlength ▸ desc.nBytes.toNat_lt }

-- ---------------------------------------------------------------------------
-- Payloads that decode
-- ---------------------------------------------------------------------------

theorem decodeValues_sized {ty : TensorType} (width : UInt64) (hpos : 0 < width.toNat)
    (hlayout : ty.layout = some (1, width)) {label : String} {value : List UInt8 → F32} (name : Str)
    {bytes : List UInt8} {n : Nat} (hsized : SizedPayload ty n bytes.length)
    (hlt : bytes.length < 2 ^ 64) :
    ∃ data, decodeValues label width.toNat value name bytes n = .ok data ∧ data.length = n := by
  obtain ⟨block, size, hlayout', -, hbytes⟩ := hsized
  obtain ⟨rfl, rfl⟩ := Prod.mk.inj (Option.some.inj (hlayout.symm.trans hlayout'))
  rw [UInt64.toNat_one, Nat.div_one] at hbytes
  have hmul : plainMul n width.toNat = .ok (n * width.toNat) :=
    plainMul_eq_ok.mpr ⟨rfl, hbytes ▸ hlt⟩
  have hdecoded : ∃ data, decodeValues label width.toNat value name bytes n = .ok data := by
    unfold decodeValues
    rw [hmul, Outcome.ok_bind, if_neg (not_not.mpr hbytes)]
    exact ⟨_, rfl⟩
  obtain ⟨data, hdata⟩ := hdecoded
  exact ⟨data, hdata, length_of_decodeValues hpos hdata⟩

theorem decodeQ8_0Blocks_sized (name : Str) {bytes : List UInt8} {n : Nat}
    (hsized : SizedPayload .Q8_0 n bytes.length) (hlt : bytes.length < 2 ^ 64) :
    ∃ blocks, decodeQ8_0Blocks name bytes n = .ok blocks ∧ blocks.length * 32 = n := by
  obtain ⟨block, size, hlayout, hdvd, hbytes⟩ := hsized
  obtain ⟨rfl, rfl⟩ := Prod.mk.inj (Option.some.inj hlayout)
  have haligned : n % 32 = 0 := Nat.mod_eq_zero_of_dvd hdvd
  have hlength : bytes.length = n / 32 * 34 := hbytes
  have hmul : plainMul (n / 32) 34 = .ok (n / 32 * 34) := plainMul_eq_ok.mpr ⟨rfl, hlength ▸ hlt⟩
  have hdecoded : ∃ blocks, decodeQ8_0Blocks name bytes n = .ok blocks := by
    unfold decodeQ8_0Blocks
    rw [if_neg (not_not.mpr haligned), hmul, Outcome.ok_bind, if_neg (not_not.mpr hlength)]
    exact ⟨_, rfl⟩
  obtain ⟨blocks, hblocks⟩ := hdecoded
  exact ⟨blocks, hblocks, length_of_decodeQ8_0Blocks hblocks⟩

section Loading

variable [FloatOps]

omit [FloatOps] in
theorem decodeBlocks_sized {ty : TensorType} {label : String} {block size : UInt64}
    {decode : List UInt8 → EngineResult (List F32)}
    (hdecodes : Decodes decode size.toNat block.toNat) {name : Str} {bytes : List UInt8} {n : Nat}
    (hlayout : ty.layout = some (block, size)) (hsized : SizedPayload ty n bytes.length) :
    ∃ data, decodeBlocks label size.toNat decode name bytes = .ok data := by
  obtain ⟨block', size', hlayout', -, hbytes⟩ := hsized
  obtain ⟨rfl, rfl⟩ := Prod.mk.inj (Option.some.inj (hlayout.symm.trans hlayout'))
  have haligned : bytes.length % size.toNat = 0 := by
    rw [hbytes]
    exact Nat.mul_mod_left _ _
  obtain ⟨values, -, hvalues⟩ := hdecodes.values
  exact ⟨_, decodeBlocks_eq _ hvalues name haligned⟩

/-- A payload of the header's size is decoded to its elements, or its type is refused. -/
theorem decodeTensor_sized {ty : TensorType} {n : Nat} (hne : ty ≠ .Q5_1 ∨ n = 0) (name : Str)
    {bytes : List UInt8} (hsized : SizedPayload ty n bytes.length) (hlt : bytes.length < 2 ^ 64) :
    (∃ message, decodeTensor ty name bytes n = .err (.UnsupportedTensorType message)) ∨
      ∃ data, decodeTensor ty name bytes n = .ok data ∧ data.length = n := by
  have hlength : (∃ data, decodeTensor ty name bytes n = .ok data) →
      ∃ data, decodeTensor ty name bytes n = .ok data ∧ data.length = n := by
    rintro ⟨data, hdata⟩
    refine ⟨data, hdata, ?_⟩
    rw [length_of_decodeTensor hsized hdata, (decodedCount_eq_iff ty n).mpr hne]
  have hblocks : ∀ (block size : UInt64) {label : String}
      {decode : List UInt8 → EngineResult (List F32)}, Decodes decode size.toNat block.toNat →
      ty.layout = some (block, size) →
      ∃ data, decodeBlocks label size.toNat decode name bytes = .ok data :=
    fun block size _ _ hdecodes hlayout => decodeBlocks_sized hdecodes hlayout hsized
  cases ty with
  | F32 => exact .inr (decodeValues_sized 4 (by decide) rfl name hsized hlt)
  | F16 => exact .inr (decodeValues_sized 2 (by decide) rfl name hsized hlt)
  | BF16 => exact .inr (decodeValues_sized 2 (by decide) rfl name hsized hlt)
  | Q8_0 =>
    obtain ⟨blocks, hdecoded, -⟩ := decodeQ8_0Blocks_sized name hsized hlt
    exact .inr (hlength ⟨_, Outcome.bind_eq_ok.mpr ⟨blocks, hdecoded, rfl⟩⟩)
  | Q5_1 =>
    -- no elements: no bytes, of which there are no blocks of 24 either
    have hzero := hne.resolve_left (not_not.mpr rfl)
    obtain ⟨block, size, -, -, hbytes⟩ := hsized
    rw [hzero, Nat.zero_div, Nat.zero_mul] at hbytes
    have haligned : bytes.length % 24 = 0 := by rw [hbytes]
    obtain ⟨values, -, hvalues⟩ := Q5_1Block.decodes.values
    exact .inr (hlength ⟨_, decodeBlocks_eq _ hvalues name haligned⟩)
  | Q4_0 => exact .inr (hlength (hblocks 32 18 Q4_0Block.decodes rfl))
  | Q4_1 => exact .inr (hlength (hblocks 32 20 Q4_1Block.decodes rfl))
  | Q5_0 => exact .inr (hlength (hblocks 32 22 Q5_0Block.decodes rfl))
  | Q2K => exact .inr (hlength (hblocks 256 84 Q2KBlock.decodes rfl))
  | Q3K => exact .inr (hlength (hblocks 256 110 Q3KBlock.decodes rfl))
  | Q4K => exact .inr (hlength (hblocks 256 144 Q4KBlock.decodes rfl))
  | Q5K => exact .inr (hlength (hblocks 256 176 Q5KBlock.decodes rfl))
  | Q6K => exact .inr (hlength (hblocks 256 210 Q6KBlock.decodes rfl))
  | Q8K => exact .inr (hlength (hblocks 256 292 Q8KBlock.decodes rfl))
  | IQ4NL => exact .inr (hlength (hblocks 32 18 IQ4NLBlock.decodes rfl))
  | IQ4XS => exact .inr (hlength (hblocks 256 136 IQ4XSBlock.decodes rfl))
  | Tq1_0 => exact .inr (hlength (hblocks 256 54 decodeTq1_0Block_decodes rfl))
  | Tq2_0 => exact .inr (hlength (hblocks 256 66 decodeTq2_0Block_decodes rfl))
  | Q8_1 => exact .inl ⟨_, rfl⟩
  | I8 => exact .inl ⟨_, rfl⟩
  | I16 => exact .inl ⟨_, rfl⟩
  | I32 => exact .inl ⟨_, rfl⟩
  | I64 => exact .inl ⟨_, rfl⟩
  | F64 => exact .inl ⟨_, rfl⟩
  | NVFP4 => exact .inl ⟨_, rfl⟩
  | Unknown id => exact .inl ⟨_, rfl⟩

-- ---------------------------------------------------------------------------
-- Loaders
-- ---------------------------------------------------------------------------

variable {store : TensorStore} {desc : TensorDescriptor} {bytes : List UInt8}

namespace TensorStore

/-- `load_cpu_f32`, of a payload that is there. -/
theorem Holds.loadCpuF32_eq (h : store.Holds desc bytes) :
    store.loadCpuF32 desc.name = (do
      let data ← decodeTensor desc.tensorType desc.name bytes desc.dims.prod
      let q8_0Blocks ← retainedBlocks desc.tensorType desc.name bytes desc.dims.prod
      .ok
        { name := desc.name
          dims := desc.dims
          sourceType := some desc.tensorType
          q8_0Blocks
          q4KWireBytes := if desc.tensorType = .Q4K then some bytes else none
          q5KWireBytes := none
          q6KWireBytes := if desc.tensorType = .Q6K then some bytes else none
          data }) := by
  unfold loadCpuF32
  rw [h.descriptor, Outcome.ok_bind, h.tensorBytes, Outcome.ok_bind, h.elementCount,
    Outcome.ok_bind]

theorem Holds.loadPlain_fits (h : store.Holds desc bytes)
    (hne : desc.tensorType ≠ .Q5_1 ∨ desc.dims.prod = 0) :
    LoadFits desc.dims (store.loadPlain desc.name) := by
  unfold loadPlain
  rw [h.loadCpuF32_eq]
  rcases decodeTensor_sized hne desc.name h.sized h.length_lt with
    ⟨message, hrefused⟩ | ⟨data, hdata, hlength⟩
  · rw [hrefused]
    exact .inl ⟨message, rfl⟩
  have hretained : ∃ kept, retainedBlocks desc.tensorType desc.name bytes desc.dims.prod =
      .ok kept ∧ ∀ blocks ∈ kept, blocks.length * 32 = desc.dims.prod := by
    unfold retainedBlocks
    split
    · rename_i htype
      have hsized := h.sized
      rw [htype] at hsized
      obtain ⟨blocks, hblocks, hcount⟩ := decodeQ8_0Blocks_sized desc.name hsized h.length_lt
      rw [hblocks]
      refine ⟨some blocks, rfl, ?_⟩
      rintro _ ⟨rfl⟩
      exact hcount
    · exact ⟨none, rfl, by simp⟩
  obtain ⟨kept, hkept, hcount⟩ := hretained
  rw [hdata, Outcome.ok_bind, hkept, Outcome.ok_bind]
  refine .inr ⟨_, rfl, rfl, .inl hlength, hcount, ?_⟩
  intro ty wire hwire
  have hkeeps : desc.tensorType = ty ∧ bytes = wire := by
    cases ty with
    | Q4K => simpa [WireTensor.wireBytes, WireTensor.ofCpu] using hwire
    | Q6K => simpa [WireTensor.wireBytes, WireTensor.ofCpu] using hwire
    | _ => exact absurd hwire (by simp [WireTensor.wireBytes, WireTensor.ofCpu])
  obtain ⟨rfl, rfl⟩ := hkeeps
  exact h.sized

/-- Blocks of `Q5_1` are either cut short or come out too few. -/
theorem Holds.not_loadPlain_fits (h : store.Holds desc bytes) (htype : desc.tensorType = .Q5_1)
    (hne : desc.dims.prod ≠ 0) : ¬LoadFits desc.dims (store.loadPlain desc.name) := by
  have hdecoded :
      (∃ message, decodeTensor desc.tensorType desc.name bytes desc.dims.prod =
        .err (.InvalidTensorData message)) ∨
      ∃ data, decodeTensor desc.tensorType desc.name bytes desc.dims.prod = .ok data := by
    rw [htype]
    by_cases haligned : bytes.length % 24 = 0
    · obtain ⟨values, -, hvalues⟩ := Q5_1Block.decodes.values
      exact .inr ⟨_, decodeBlocks_eq _ hvalues desc.name haligned⟩
    · exact .inl ⟨_, if_pos haligned⟩
  have hretained : retainedBlocks desc.tensorType desc.name bytes desc.dims.prod = .ok none := by
    rw [htype]
    rfl
  unfold loadPlain
  rw [h.loadCpuF32_eq]
  rcases hdecoded with ⟨message, hcut⟩ | ⟨data, hdata⟩
  · rw [hcut]
    rintro (⟨message', h'⟩ | ⟨tensor, h', -⟩)
    · exact absurd h' (by simp)
    · exact absurd h' (by simp)
  · rw [hdata, Outcome.ok_bind, hretained, Outcome.ok_bind]
    rintro (⟨message', h'⟩ | ⟨tensor, h', hfits⟩)
    · exact absurd h' (by simp)
    obtain rfl := Outcome.ok.inj h'
    rcases hfits.stored with hfull | ⟨-, hblocks | ⟨ty, hwire⟩⟩
    · have hcount : decodedCount desc.tensorType desc.dims.prod = desc.dims.prod :=
        (length_of_decodeTensor h.sized hdata).symm.trans hfull
      rcases (decodedCount_eq_iff _ _).mp hcount with hother | hzero
      · exact hother htype
      · exact hne hzero
    · exact absurd hblocks (by simp [WireTensor.ofCpu])
    · revert hwire
      cases ty with
      | _ => simp [WireTensor.wireBytes, WireTensor.ofCpu, htype]

omit [FloatOps] in
/-- A linear of which the wire bytes are kept. -/
theorem Holds.wire_fits (h : store.Holds desc bytes) {tensor : WireTensor} {ty : TensorType}
    (hdims : tensor.dims = desc.dims) (hdata : tensor.data = []) (hblocks : tensor.q8_0Blocks = none)
    (hwire : ∀ ty', tensor.wireBytes ty' = if ty' = ty then some bytes else none)
    (htype : desc.tensorType = ty) : LoadFits desc.dims (.ok tensor) := by
  refine .inr ⟨tensor, rfl, hdims, .inr ⟨hdata, .inr ⟨ty, by simp [hwire]⟩⟩, by simp [hblocks], ?_⟩
  intro ty' wire hkept
  rw [hwire] at hkept
  obtain ⟨rfl, rfl⟩ : ty' = ty ∧ bytes = wire := by simpa using hkept
  rw [← htype]
  exact h.sized

omit [FloatOps] in
/-- A matrix in a K-quant: its bytes are kept, or it is refused. -/
theorem Holds.kquantWireLinear_fits (h : store.Holds desc bytes) :
    LoadFits desc.dims (store.kquantWireLinear desc desc.name) := by
  unfold kquantWireLinear
  split
  · rename_i htype
    rw [h.tensorBytes]
    exact h.wire_fits rfl rfl rfl (fun ty' => by cases ty' <;> rfl) htype
  · rename_i htype
    rw [h.tensorBytes]
    exact h.wire_fits rfl rfl rfl (fun ty' => by cases ty' <;> rfl) htype
  · rename_i htype
    rw [h.tensorBytes]
    exact h.wire_fits rfl rfl rfl (fun ty' => by cases ty' <;> rfl) htype
  · exact .inl ⟨_, rfl⟩

theorem Holds.loadKquantWireLinear_fits (h : store.Holds desc bytes)
    (hne : desc.tensorType ≠ .Q5_1 ∨ desc.dims.prod = 0) :
    LoadFits desc.dims (store.loadKquantWireLinear desc.name) := by
  unfold loadKquantWireLinear
  rw [h.descriptor, Outcome.ok_bind]
  split
  · exact h.loadPlain_fits hne
  · exact h.kquantWireLinear_fits

theorem Holds.loadTq2_0WireLinear_fits (h : store.Holds desc bytes)
    (hne : desc.tensorType ≠ .Q5_1 ∨ desc.dims.prod = 0) :
    LoadFits desc.dims (store.loadTq2_0WireLinear desc.name) := by
  unfold loadTq2_0WireLinear
  rw [h.descriptor, Outcome.ok_bind]
  split
  · exact h.loadPlain_fits hne
  · rename_i hmatrix
    rw [h.tensorBytes]
    exact h.wire_fits rfl rfl rfl (fun ty' => by cases ty' <;> rfl)
      (not_not.mp (not_or.mp hmatrix).1)

theorem Holds.loadIq4XsWireLinear_fits (h : store.Holds desc bytes)
    (hne : desc.tensorType ≠ .Q5_1 ∨ desc.dims.prod = 0) :
    LoadFits desc.dims (store.loadIq4XsWireLinear desc.name) := by
  unfold loadIq4XsWireLinear
  rw [h.descriptor, Outcome.ok_bind]
  split
  · exact h.loadPlain_fits hne
  · rename_i hmatrix
    rw [h.tensorBytes]
    exact h.wire_fits rfl rfl rfl (fun ty' => by cases ty' <;> rfl)
      (not_not.mp (not_or.mp hmatrix).1)

omit [FloatOps] in
/-- A matrix of which the blocks are kept. -/
theorem fromQ8_0Blocks_fits {name : Str} {dims : List Nat} {blocks : List Q8_0Block}
    (hcount : elementCount dims = .ok dims.prod) (hblocks : blocks.length * 32 = dims.prod) :
    LoadFits dims ((CpuTensor.fromQ8_0Blocks name dims blocks).map WireTensor.ofCpu) := by
  have haligned : dims.prod % 32 = 0 := by omega
  have hlength : blocks.length = dims.prod / 32 := by omega
  unfold CpuTensor.fromQ8_0Blocks
  rw [hcount, Outcome.ok_bind, if_neg (not_not.mpr haligned)]
  dsimp only
  rw [if_neg (not_not.mpr hlength)]
  refine .inr ⟨_, rfl, rfl, .inr ⟨rfl, .inl rfl⟩, ?_, ?_⟩
  · rintro _ ⟨rfl⟩
    exact hblocks
  · intro ty wire hwire
    cases ty with
    | _ => exact absurd hwire (by simp [WireTensor.wireBytes, WireTensor.ofCpu])

omit [FloatOps] in
/-- A tensor of plain values. -/
theorem fromF32_fits {name : Str} {dims : List Nat} {decoded : EngineResult (List F32)}
    (hcount : elementCount dims = .ok dims.prod)
    (hdecoded : ∃ data, decoded = .ok data ∧ data.length = dims.prod) :
    LoadFits dims (Outcome.map WireTensor.ofCpu do
      let data ← decoded
      CpuTensor.fromF32 name dims data) := by
  obtain ⟨data, rfl, hlength⟩ := hdecoded
  rw [Outcome.ok_bind]
  unfold CpuTensor.fromF32
  rw [hcount, Outcome.ok_bind, if_neg (not_not.mpr hlength.symm)]
  refine .inr ⟨_, rfl, rfl, .inl hlength, by simp [WireTensor.ofCpu], ?_⟩
  intro ty wire hwire
  cases ty with
  | _ => exact absurd hwire (by simp [WireTensor.wireBytes, WireTensor.ofCpu])

omit [FloatOps] in
/-- The name is no part of what a load ends in. -/
theorem loadFits_renamed {dims : List Nat} {loaded : EngineResult CpuTensor} (name : Str) :
    LoadFits dims (Outcome.map WireTensor.ofCpu do
        let tensor ← loaded
        .ok { tensor with name }) ↔
      LoadFits dims (loaded.map WireTensor.ofCpu) := by
  cases loaded with
  | ok tensor =>
    have hwire : ∀ ty, (WireTensor.ofCpu { tensor with name }).wireBytes ty =
        (WireTensor.ofCpu tensor).wireBytes ty := fun ty => by cases ty <;> rfl
    rw [Outcome.ok_bind, Outcome.map_ok, Outcome.map_ok, loadFits_ok, loadFits_ok]
    exact ⟨fun h => h.congr rfl rfl rfl fun ty => (hwire ty).symm, fun h => h.congr rfl rfl rfl hwire⟩
  | err e => rfl
  | fault k => rfl

theorem Holds.loadQ8_0Linear_fits (h : store.Holds desc bytes)
    (hne : desc.tensorType ≠ .Q5_1 ∨ desc.dims.prod = 0) (tensorName : Str) :
    LoadFits desc.dims
      ((store.loadQ8_0BlockBackedLinearAs desc.name tensorName).map WireTensor.ofCpu) := by
  unfold loadQ8_0BlockBackedLinearAs
  rw [h.descriptor, Outcome.ok_bind]
  split
  · exact (loadFits_renamed tensorName).mpr (h.loadPlain_fits hne)
  · rename_i hmatrix
    have hsized := h.sized
    rw [not_not.mp (not_or.mp hmatrix).1] at hsized
    obtain ⟨blocks, hblocks, hcount⟩ := decodeQ8_0Blocks_sized desc.name hsized h.length_lt
    rw [h.elementCount, Outcome.ok_bind, h.tensorBytes, Outcome.ok_bind, hblocks, Outcome.ok_bind]
    exact fromQ8_0Blocks_fits h.elementCount hcount

/-- Without a store, four types are decoded and every other one is refused. -/
theorem Holds.cpuTensorFromGgufBytes_fits (h : store.Holds desc bytes) :
    LoadFits desc.dims
      ((cpuTensorFromGgufBytes desc.name desc.tensorType desc.dims bytes).map
        WireTensor.ofCpu) := by
  have hsized := h.sized
  unfold cpuTensorFromGgufBytes
  rw [h.elementCount, Outcome.ok_bind]
  split
  · rename_i htype
    rw [htype] at hsized
    exact fromF32_fits h.elementCount (decodeValues_sized 4 (by decide) rfl _ hsized h.length_lt)
  · rename_i htype
    rw [htype] at hsized
    exact fromF32_fits h.elementCount (decodeValues_sized 2 (by decide) rfl _ hsized h.length_lt)
  · rename_i htype
    rw [htype] at hsized
    exact fromF32_fits h.elementCount (decodeValues_sized 2 (by decide) rfl _ hsized h.length_lt)
  · rename_i htype
    rw [htype] at hsized
    obtain ⟨blocks, hblocks, hcount⟩ := decodeQ8_0Blocks_sized desc.name hsized h.length_lt
    split
    · rw [hblocks, Outcome.ok_bind]
      exact fromQ8_0Blocks_fits h.elementCount hcount
    · refine fromF32_fits h.elementCount ⟨_, Outcome.bind_eq_ok.mpr ⟨blocks, hblocks, rfl⟩, ?_⟩
      rw [Rows.length_flatMap_blocks Q8_0Block.length_dequantize, hcount]
  · exact .inl ⟨_, rfl⟩

end TensorStore

/-- **Sizing and decoding agree.** A loader that is given the bytes of a descriptor of an
accepted header refuses the type or returns a tensor of the declared shape, but for a
tensor in `Q5_1` that is not empty, which only the loader without a store refuses. -/
theorem Loader.run_fits_iff {file : List UInt8} {declaredLen : UInt64} {gguf : GgufFile}
    (hgguf : readMetadataWithLen file declaredLen = .ok gguf) {path : String} {data : List UInt8}
    (hdesc : desc ∈ gguf.tensors)
    (hbytes : (TensorStore.ofHeader path data gguf).tensorBytes desc.name = .ok bytes)
    (loader : Loader) :
    LoadFits desc.dims (loader.run (TensorStore.ofHeader path data gguf) desc bytes) ↔
      desc.tensorType ≠ .Q5_1 ∨ desc.dims.prod = 0 ∨ loader = .ggufBytes := by
  have h := TensorStore.holds_of_mem hgguf hdesc hbytes
  generalize TensorStore.ofHeader path data gguf = store at h
  by_cases hne : desc.tensorType ≠ .Q5_1 ∨ desc.dims.prod = 0
  · refine iff_of_true ?_ (by tauto)
    cases loader with
    | cpuF32 => exact h.loadPlain_fits hne
    | q8_0BlockBackedLinearAs tensorName => exact h.loadQ8_0Linear_fits hne tensorName
    | kquantWireLinear => exact h.loadKquantWireLinear_fits hne
    | tq2_0WireLinear => exact h.loadTq2_0WireLinear_fits hne
    | iq4XsWireLinear => exact h.loadIq4XsWireLinear_fits hne
    | ggufBytes => exact h.cpuTensorFromGgufBytes_fits
  · obtain ⟨htype, hempty⟩ := not_or.mp hne
    have htype := not_not.mp htype
    have hplain := h.not_loadPlain_fits htype hempty
    have hcond : ∀ loader : Loader, loader ≠ .ggufBytes →
        ¬(desc.tensorType ≠ .Q5_1 ∨ desc.dims.prod = 0 ∨ loader = .ggufBytes) := by
      intro loader hloader
      tauto
    cases loader with
    | cpuF32 => exact iff_of_false hplain (hcond _ (by decide))
    | q8_0BlockBackedLinearAs tensorName =>
      refine iff_of_false ?_ (hcond _ (by simp))
      rw [run]
      unfold TensorStore.loadQ8_0BlockBackedLinearAs
      rw [h.descriptor, Outcome.ok_bind, if_pos (.inl (by simp [htype]))]
      exact mt (TensorStore.loadFits_renamed tensorName).mp hplain
    | kquantWireLinear =>
      refine iff_of_false ?_ (hcond _ (by decide))
      rw [run]
      unfold TensorStore.loadKquantWireLinear
      rwa [h.descriptor, Outcome.ok_bind, if_pos (.inl (by simp [htype]))]
    | tq2_0WireLinear =>
      refine iff_of_false ?_ (hcond _ (by decide))
      rw [run]
      unfold TensorStore.loadTq2_0WireLinear
      rwa [h.descriptor, Outcome.ok_bind, if_pos (.inl (by simp [htype]))]
    | iq4XsWireLinear =>
      refine iff_of_false ?_ (hcond _ (by decide))
      rw [run]
      unfold TensorStore.loadIq4XsWireLinear
      rwa [h.descriptor, Outcome.ok_bind, if_pos (.inl (by simp [htype]))]
    | ggufBytes => exact iff_of_true h.cpuTensorFromGgufBytes_fits (by simp)

end Loading

-- ---------------------------------------------------------------------------
-- A block of `Q5_1`
-- ---------------------------------------------------------------------------

section Samples

attribute [local instance] residueOps

/-- A version 3 file of one tensor, of 32 elements in the type of the id. -/
def oneBlockFile (typeId : UInt8) (payload : Nat) : List UInt8 :=
  [71, 71, 85, 70, 3, 0, 0, 0] ++ sizeBytes 1 ++ sizeBytes 0 ++ sizeBytes 1 ++ [119, 1, 0, 0, 0] ++
    sizeBytes 32 ++ [typeId, 0, 0, 0] ++ sizeBytes 0 ++ List.replicate (7 + payload) 0

/-- The 22 bytes the header gives a block of `Q5_1` are refused by its decoder. -/
theorem q5_1_payload_refused :
    ∃ gguf desc bytes message, readMetadataWithLen (oneBlockFile 7 22) 86 = .ok gguf ∧
      desc ∈ gguf.tensors ∧
      (TensorStore.ofHeader "model.gguf" (oneBlockFile 7 22) gguf).tensorBytes desc.name =
        .ok bytes ∧
      Loader.run (TensorStore.ofHeader "model.gguf" (oneBlockFile 7 22) gguf) desc bytes .cpuF32 =
        .err (.InvalidTensorData message) := by
  have hparse : (readMetadataWithLen (oneBlockFile 7 22) 86).map GgufFile.tensors =
      .ok [⟨['w'], [32], .Q5_1, 0, 64, 22⟩] := by decide +kernel
  obtain ⟨gguf, hgguf, htensors⟩ := Outcome.map_eq_ok.mp hparse
  refine ⟨gguf, ⟨['w'], [32], .Q5_1, 0, 64, 22⟩, List.replicate 22 0,
    "w: invalid tensor data: Q5_1 byte length 22 is not aligned to 24-byte blocks", hgguf, ?_, ?_, ?_⟩
  · rw [htensors]
    exact List.mem_singleton_self _
  · rw [TensorStore.ofHeader, htensors]
    decide +kernel
  · rw [TensorStore.ofHeader, htensors]
    decide +kernel

/-- A block of `Q8_0`. -/
theorem run_fits_iff_block :
    ∃ gguf desc bytes, readMetadataWithLen (oneBlockFile 8 34) 98 = .ok gguf ∧
      desc ∈ gguf.tensors ∧
      LoadFits [32] (Loader.run (TensorStore.ofHeader "model.gguf" (oneBlockFile 8 34) gguf) desc
        bytes .cpuF32) := by
  have hparse : (readMetadataWithLen (oneBlockFile 8 34) 98).map GgufFile.tensors =
      .ok [⟨['w'], [32], .Q8_0, 0, 64, 34⟩] := by decide +kernel
  obtain ⟨gguf, hgguf, htensors⟩ := Outcome.map_eq_ok.mp hparse
  have hdesc : (⟨['w'], [32], .Q8_0, 0, 64, 34⟩ : TensorDescriptor) ∈ gguf.tensors := by
    rw [htensors]
    exact List.mem_singleton_self _
  have hbytes : (TensorStore.ofHeader "model.gguf" (oneBlockFile 8 34) gguf).tensorBytes ['w'] =
      .ok (List.replicate 34 0) := by
    rw [TensorStore.ofHeader, htensors]
    decide +kernel
  exact ⟨gguf, _, List.replicate 34 0, hgguf, hdesc,
    (Loader.run_fits_iff hgguf hdesc hbytes .cpuF32).mpr (.inl (by decide))⟩

end Samples

end CamelidEnterprise

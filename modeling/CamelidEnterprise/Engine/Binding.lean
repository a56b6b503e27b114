import CamelidEnterprise.Engine.Weights

/-!
# Camelid Enterprise — weight binding

`crates/engine-core/src/model/binding.rs`: the descriptors of a dense decoder are
looked up by their names in a GGUF header and their declared shapes are checked
against the dimensions of the configuration, before any tensor data is read. A
`usize` has 64 bits, so every dimension fits one.

Key results:

* `bind_steps` and `shaped_of_validate` — the descriptors of a binding are those of
  the names it looks up, and their shapes are the ones the dimensions call for;
* `bind_holds_every_layer_tensor_iff` — when the binding holds every tensor of the
  header whose name is that of a layer.
-/

namespace CamelidEnterprise

open Foundation Gguf

-- ---------------------------------------------------------------------------
-- Descriptors by name
-- ---------------------------------------------------------------------------

/-- `find_tensor` -/
def Gguf.GgufFile.findTensor (gguf : GgufFile) (name : String) : Option TensorDescriptor :=
  gguf.tensors.find? fun tensor => tensor.name == name.toList

/-- `required_tensor` -/
def Gguf.GgufFile.requiredTensor (gguf : GgufFile) (name : String) :
    EngineResult TensorDescriptor :=
  Outcome.okOr (.TensorNotFound name) (gguf.findTensor name)

/-- `blk.{layer_idx}.{part}.weight` -/
def layerTensorName (layerIdx : Nat) (part : String) : String := s!"blk.{layerIdx}.{part}.weight"

/-- `LlamaFfnTensors` -/
structure LlamaFfnTensors where
  gate : TensorDescriptor
  up : TensorDescriptor
  down : TensorDescriptor
deriving DecidableEq

/-- `LlamaLayerTensors` -/
structure LlamaLayerTensors where
  attentionNorm : TensorDescriptor
  attentionQ : TensorDescriptor
  attentionK : TensorDescriptor
  attentionV : TensorDescriptor
  attentionOutput : TensorDescriptor
  attentionQNorm : Option TensorDescriptor
  attentionKNorm : Option TensorDescriptor
  ffnNorm : TensorDescriptor
  ffn : LlamaFfnTensors
deriving DecidableEq

/-- `LlamaTensorBinding` -/
structure LlamaTensorBinding where
  tokenEmbedding : TensorDescriptor
  outputNorm : TensorDescriptor
  output : TensorDescriptor
  outputIsTiedEmbedding : Bool
  ropeFreqs : Option TensorDescriptor
  layers : List LlamaLayerTensors
deriving DecidableEq

-- ---------------------------------------------------------------------------
-- Shapes
-- ---------------------------------------------------------------------------

/-- `descriptor_dims` -/
def Gguf.TensorDescriptor.dims (tensor : TensorDescriptor) : List Nat :=
  tensor.dimensions.map UInt64.toNat

/-- `{tensor_type:?}` -/
def Gguf.TensorType.debug : TensorType → String
  | .F32 => "F32"
  | .F16 => "F16"
  | .Q4_0 => "Q4_0"
  | .Q4_1 => "Q4_1"
  | .Q5_0 => "Q5_0"
  | .Q5_1 => "Q5_1"
  | .Q8_0 => "Q8_0"
  | .Q8_1 => "Q8_1"
  | .Q2K => "Q2K"
  | .Q3K => "Q3K"
  | .Q4K => "Q4K"
  | .Q5K => "Q5K"
  | .Q6K => "Q6K"
  | .Q8K => "Q8K"
  | .IQ4NL => "IQ4NL"
  | .IQ4XS => "IQ4XS"
  | .Tq1_0 => "Tq1_0"
  | .Tq2_0 => "Tq2_0"
  | .I8 => "I8"
  | .I16 => "I16"
  | .I32 => "I32"
  | .I64 => "I64"
  | .F64 => "F64"
  | .BF16 => "BF16"
  | .NVFP4 => "NVFP4"
  | .Unknown id => s!"Unknown({id.toInt})"

/-- `require_descriptor_shape` -/
def requireDescriptorShape (tensor : TensorDescriptor) (expected : List Nat) (role : String) :
    EngineResult Unit :=
  if tensor.dims ≠ expected then
    .err (.InvalidModelMetadata
      s!"{role} tensor {display tensor.name} expected descriptor shape {debugDims expected}, got {debugDims tensor.dims}")
  else .ok ()

/-- `require_descriptor_matrix_shape` -/
def requireDescriptorMatrixShape (tensor : TensorDescriptor) (inputWidth outputWidth : Nat)
    (role : String) : EngineResult Unit :=
  let direct := [inputWidth, outputWidth]
  let transposed := [outputWidth, inputWidth]
  if tensor.dims ≠ direct ∧ tensor.dims ≠ transposed then
    .err (.InvalidModelMetadata
      s!"{role} tensor {display tensor.name} expected descriptor shape {debugDims direct} or {debugDims transposed}, got {debugDims tensor.dims}")
  else .ok ()

/-- The sizes of a token-major output projection. -/
def checkTokenRows (tensor : TensorDescriptor) (rowValues rowCount : Nat) : EngineResult Unit := do
  let (blockSize, typeSizeBytes) ← Outcome.okOr
    (.InvalidModelMetadata
      s!"output projection tensor {display tensor.name} has unsupported storage type {tensor.tensorType.debug} for token-row validation")
    tensor.tensorType.layout
  if rowValues % blockSize.toNat ≠ 0 then
    .err (.InvalidModelMetadata
      s!"output projection tensor {display tensor.name} token-row width {rowValues} is not divisible by {tensor.tensorType.debug} block size {blockSize}")
  else do
    let rowSizeBytes ← Outcome.okOr
      (.InvalidModelMetadata
        s!"output projection tensor {display tensor.name} token-row byte size overflow")
      (checkedMul (rowValues / blockSize.toNat) typeSizeBytes.toNat)
    let expectedBytes ← Outcome.okOr
      (.InvalidModelMetadata
        s!"output projection tensor {display tensor.name} token-row byte count overflow")
      (checkedMul rowSizeBytes rowCount)
    if tensor.nBytes.toNat ≠ expectedBytes then
      .err (.InvalidModelMetadata
        s!"output projection tensor {display tensor.name} token-major storage validation failed: row_values={rowValues}, row_count={rowCount}, row_size_bytes={rowSizeBytes}, expected_n_bytes={expectedBytes}, actual_n_bytes={tensor.nBytes}")
    else .ok ()

/-- `validate_output_projection_storage_layout` -/
def validateOutputProjectionStorageLayout (tensor : TensorDescriptor) (hiddenWidth vocabSize : Nat) :
    EngineResult Unit :=
  if tensor.dims = [hiddenWidth, vocabSize] ∨ tensor.dims = [vocabSize, hiddenWidth] then
    checkTokenRows tensor hiddenWidth vocabSize
  else .ok ()

/-- The check of the frequency factors' descriptor, where there is one. -/
def LlamaTensorBinding.validateRopeFreqs (binding : LlamaTensorBinding) (config : LlamaModelConfig)
    (headDim : Nat) : EngineResult Unit :=
  match binding.ropeFreqs with
  | some ropeFreqs =>
    let ropeDim := config.ropeDim headDim
    if ropeDim = 0 ∨ ropeDim > headDim ∨ ropeDim % 2 ≠ 0 then
      .err (.InvalidModelMetadata
        s!"RoPE dimension count {ropeDim} must be even and within head dimension {headDim}")
    else requireDescriptorShape ropeFreqs [ropeDim / 2] "rope frequencies"
  | none => .ok ()

/-- QK-norm descriptors are bound as a pair or not at all. -/
def LlamaLayerTensors.validateQkNorms (layer : LlamaLayerTensors) (dims : DenseLlamaDims)
    (idx : Nat) : EngineResult Unit :=
  match layer.attentionQNorm, layer.attentionKNorm with
  | some qNorm, some kNorm => do
    requireDescriptorShape qNorm [dims.headDim] s!"layer {idx} attention q_norm"
    requireDescriptorShape kNorm [dims.headDim] s!"layer {idx} attention k_norm"
  | none, none => .ok ()
  | _, _ =>
    .err (.InvalidModelMetadata
      s!"layer {idx} has exactly one of attn_q_norm/attn_k_norm bound; QK-norm weights must be present as a pair")

/-- The checks of one layer. -/
def LlamaLayerTensors.validateDenseShapes (layer : LlamaLayerTensors) (dims : DenseLlamaDims)
    (idx : Nat) : EngineResult Unit := do
  let emb := dims.embeddingLength
  requireDescriptorShape layer.attentionNorm [emb] s!"layer {idx} attention norm"
  requireDescriptorMatrixShape layer.attentionQ emb dims.qWidth s!"layer {idx} attention q"
  requireDescriptorMatrixShape layer.attentionK emb dims.kvWidth s!"layer {idx} attention k"
  requireDescriptorMatrixShape layer.attentionV emb dims.kvWidth s!"layer {idx} attention v"
  requireDescriptorMatrixShape layer.attentionOutput dims.qWidth emb s!"layer {idx} attention output"
  layer.validateQkNorms dims idx
  requireDescriptorShape layer.ffnNorm [emb] s!"layer {idx} ffn norm"
  requireDescriptorMatrixShape layer.ffn.gate emb dims.feedForwardLength s!"layer {idx} ffn gate"
  requireDescriptorMatrixShape layer.ffn.up emb dims.feedForwardLength s!"layer {idx} ffn up"
  requireDescriptorMatrixShape layer.ffn.down dims.feedForwardLength emb s!"layer {idx} ffn down"

/-- `LlamaTensorBinding::validate_dense_shapes` -/
def LlamaTensorBinding.validateDenseShapes (binding : LlamaTensorBinding)
    (config : LlamaModelConfig) : EngineResult Unit := do
  let dims ← DenseLlamaDims.fromConfig config
  requireDescriptorMatrixShape binding.tokenEmbedding dims.embeddingLength dims.vocabSize
    "token embedding"
  requireDescriptorShape binding.outputNorm [dims.embeddingLength] "output norm"
  requireDescriptorMatrixShape binding.output dims.embeddingLength dims.vocabSize
    "output projection"
  validateOutputProjectionStorageLayout binding.output dims.embeddingLength dims.vocabSize
  binding.validateRopeFreqs config dims.headDim
  if binding.layers.length ≠ dims.blockCount then
    .err (.InvalidModelMetadata
      s!"config block count {dims.blockCount} does not match bound layer count {binding.layers.length}")
  else
    Outcome.each (fun (layer, idx) => layer.validateDenseShapes dims idx) binding.layers.zipIdx

/-- A linear declared in either orientation. -/
def Gguf.TensorDescriptor.Oriented (tensor : TensorDescriptor) (inputWidth outputWidth : Nat) :
    Prop :=
  tensor.dims = [inputWidth, outputWidth] ∨ tensor.dims = [outputWidth, inputWidth]

theorem requireDescriptorShape_eq_ok {tensor : TensorDescriptor} {expected : List Nat}
    {role : String} :
    requireDescriptorShape tensor expected role = .ok () ↔ tensor.dims = expected := by
  unfold requireDescriptorShape
  split
  · rename_i h
    simp [h]
  · rename_i h
    simpa using h

theorem requireDescriptorMatrixShape_eq_ok {tensor : TensorDescriptor}
    {inputWidth outputWidth : Nat} {role : String} :
    requireDescriptorMatrixShape tensor inputWidth outputWidth role = .ok () ↔
      tensor.Oriented inputWidth outputWidth := by
  unfold requireDescriptorMatrixShape TensorDescriptor.Oriented
  dsimp only
  split
  · rename_i h
    simp [h]
  · rename_i h
    simp only [true_iff]
    tauto

/-- The declared shapes of a layer. -/
structure LlamaLayerTensors.Shaped (layer : LlamaLayerTensors) (dims : DenseLlamaDims) : Prop where
  attentionNorm : layer.attentionNorm.dims = [dims.embeddingLength]
  attentionQ : layer.attentionQ.Oriented dims.embeddingLength dims.qWidth
  attentionK : layer.attentionK.Oriented dims.embeddingLength dims.kvWidth
  attentionV : layer.attentionV.Oriented dims.embeddingLength dims.kvWidth
  attentionOutput : layer.attentionOutput.Oriented dims.qWidth dims.embeddingLength
  qkNorms :
    (layer.attentionQNorm = none ∧ layer.attentionKNorm = none) ∨
      ∃ qNorm kNorm, layer.attentionQNorm = some qNorm ∧ layer.attentionKNorm = some kNorm ∧
        qNorm.dims = [dims.headDim] ∧ kNorm.dims = [dims.headDim]
  ffnNorm : layer.ffnNorm.dims = [dims.embeddingLength]
  ffnGate : layer.ffn.gate.Oriented dims.embeddingLength dims.feedForwardLength
  ffnUp : layer.ffn.up.Oriented dims.embeddingLength dims.feedForwardLength
  ffnDown : layer.ffn.down.Oriented dims.feedForwardLength dims.embeddingLength

theorem LlamaLayerTensors.shaped_of_validate {layer : LlamaLayerTensors} {dims : DenseLlamaDims}
    {idx : Nat} (h : layer.validateDenseShapes dims idx = .ok ()) : layer.Shaped dims := by
  obtain ⟨h1, h⟩ := Outcome.check_eq_ok.mp h
  obtain ⟨h2, h⟩ := Outcome.check_eq_ok.mp h
  obtain ⟨h3, h⟩ := Outcome.check_eq_ok.mp h
  obtain ⟨h4, h⟩ := Outcome.check_eq_ok.mp h
  obtain ⟨h5, h⟩ := Outcome.check_eq_ok.mp h
  obtain ⟨hnorms, h⟩ := Outcome.check_eq_ok.mp h
  obtain ⟨h6, h⟩ := Outcome.check_eq_ok.mp h
  obtain ⟨h7, h⟩ := Outcome.check_eq_ok.mp h
  obtain ⟨h8, h9⟩ := Outcome.check_eq_ok.mp h
  have hmatrix := @requireDescriptorMatrixShape_eq_ok
  have hvector := @requireDescriptorShape_eq_ok
  refine ⟨hvector.mp h1, hmatrix.mp h2, hmatrix.mp h3, hmatrix.mp h4, hmatrix.mp h5, ?_,
    hvector.mp h6, hmatrix.mp h7, hmatrix.mp h8, hmatrix.mp h9⟩
  unfold validateQkNorms at hnorms
  rcases hq : layer.attentionQNorm with _ | qNorm
  · rcases hk : layer.attentionKNorm with _ | kNorm
    · exact .inl ⟨rfl, rfl⟩
    · rw [hq, hk] at hnorms
      exact absurd hnorms (by simp)
  · rcases hk : layer.attentionKNorm with _ | kNorm
    · rw [hq, hk] at hnorms
      exact absurd hnorms (by simp)
    · rw [hq, hk] at hnorms
      obtain ⟨hqNorm, hkNorm⟩ := Outcome.check_eq_ok.mp hnorms
      exact .inr ⟨qNorm, kNorm, rfl, rfl, hvector.mp hqNorm, hvector.mp hkNorm⟩

/-- The declared shapes of a binding that passed the check. -/
theorem LlamaTensorBinding.shaped_of_validate {binding : LlamaTensorBinding}
    {config : LlamaModelConfig} {dims : DenseLlamaDims}
    (hdims : DenseLlamaDims.fromConfig config = .ok dims)
    (h : binding.validateDenseShapes config = .ok ()) :
    binding.tokenEmbedding.Oriented dims.embeddingLength dims.vocabSize ∧
      binding.outputNorm.dims = [dims.embeddingLength] ∧
      binding.output.Oriented dims.embeddingLength dims.vocabSize ∧
      checkTokenRows binding.output dims.embeddingLength dims.vocabSize = .ok () ∧
      binding.validateRopeFreqs config dims.headDim = .ok () ∧
      binding.layers.length = dims.blockCount ∧
      ∀ layer ∈ binding.layers, layer.Shaped dims := by
  unfold validateDenseShapes at h
  rw [hdims, Outcome.ok_bind] at h
  obtain ⟨hembedding, h⟩ := Outcome.check_eq_ok.mp h
  obtain ⟨hnorm, h⟩ := Outcome.check_eq_ok.mp h
  obtain ⟨houtput, h⟩ := Outcome.check_eq_ok.mp h
  obtain ⟨hlayout, h⟩ := Outcome.check_eq_ok.mp h
  obtain ⟨hrope, h⟩ := Outcome.check_eq_ok.mp h
  split at h
  · exact absurd h (by simp)
  rename_i hlayers
  have houtput := requireDescriptorMatrixShape_eq_ok.mp houtput
  have hrows : checkTokenRows binding.output dims.embeddingLength dims.vocabSize = .ok () := by
    unfold validateOutputProjectionStorageLayout at hlayout
    split at hlayout
    · exact hlayout
    · rename_i hother
      exact absurd houtput hother
  refine ⟨requireDescriptorMatrixShape_eq_ok.mp hembedding,
    requireDescriptorShape_eq_ok.mp hnorm, houtput, hrows, hrope, by omega, ?_⟩
  intro layer hlayer
  obtain ⟨idx, hidx⟩ := List.mem_iff_getElem?.mp hlayer
  have hmem : (layer, idx) ∈ binding.layers.zipIdx := List.mem_zipIdx_iff_getElem?.mpr hidx
  exact LlamaLayerTensors.shaped_of_validate (Outcome.each_eq_ok.mp h _ hmem)

-- ---------------------------------------------------------------------------
-- Binding
-- ---------------------------------------------------------------------------

/-- `expects_qk_norm` -/
def expectsQkNorm (architecture : Str) : Bool := architecture = "qwen3".toList

/-- `forbids_qk_norm` -/
def forbidsQkNorm (architecture : Str) : Bool :=
  architecture ∈ ["llama".toList, "mistral".toList, "qwen2".toList]

/-- One per-head dimension serves keys and values, where the architecture sets both. -/
def checkKeyValueLengths (gguf : GgufFile) (architecture : Str) : EngineResult Unit :=
  if expectsQkNorm architecture then
    match gguf.metadataU32 (architectureKey architecture "attention.key_length"),
      gguf.metadataU32 (architectureKey architecture "attention.value_length") with
    | some k, some v =>
      if k ≠ v then
        .err (.UnsupportedModelArchitecture
          s!"qwen3 attention.key_length={k} != value_length={v}; the engine assumes a single per-head dimension for K and V, so this row fails closed")
      else .ok ()
    | _, _ => .ok ()
  else .ok ()

/-- The QK-norm descriptors of a layer: required, forbidden, or not looked at, by
the architecture. -/
def bindQkNorms (gguf : GgufFile) (architecture : Str) (layerIdx : Nat) :
    EngineResult (Option TensorDescriptor × Option TensorDescriptor) :=
  let q := gguf.findTensor (layerTensorName layerIdx "attn_q_norm")
  let k := gguf.findTensor (layerTensorName layerIdx "attn_k_norm")
  if expectsQkNorm architecture then
    if q.isNone || k.isNone then
      .err (.UnsupportedModelArchitecture
        s!"qwen3 layer {layerIdx} is missing QK-norm tensors (attn_q_norm present: {q.isSome}, attn_k_norm present: {k.isSome}); Qwen3 applies per-head RMSNorm to Q and K and cannot run correctly without them")
    else .ok (q, k)
  else if forbidsQkNorm architecture && (q.isSome || k.isSome) then
    .err (.UnsupportedModelArchitecture
      s!"architecture {debug architecture} unexpectedly carries QK-norm tensors at layer {layerIdx} (attn_q_norm/attn_k_norm); the Llama-family forward path does not apply them, so binding fails closed rather than running a model whose weights it would silently ignore")
  else .ok (none, none)

/-- One pass of the loop over the layers. -/
def bindLayer (gguf : GgufFile) (architecture : Str) (layerIdx : Nat) :
    EngineResult LlamaLayerTensors := do
  let norms ← bindQkNorms gguf architecture layerIdx
  let attentionNorm ← gguf.requiredTensor (layerTensorName layerIdx "attn_norm")
  let attentionQ ← gguf.requiredTensor (layerTensorName layerIdx "attn_q")
  let attentionK ← gguf.requiredTensor (layerTensorName layerIdx "attn_k")
  let attentionV ← gguf.requiredTensor (layerTensorName layerIdx "attn_v")
  let attentionOutput ← gguf.requiredTensor (layerTensorName layerIdx "attn_output")
  let ffnNorm ← gguf.requiredTensor (layerTensorName layerIdx "ffn_norm")
  let gate ← gguf.requiredTensor (layerTensorName layerIdx "ffn_gate")
  let up ← gguf.requiredTensor (layerTensorName layerIdx "ffn_up")
  let down ← gguf.requiredTensor (layerTensorName layerIdx "ffn_down")
  .ok
    { attentionNorm, attentionQ, attentionK, attentionV, attentionOutput
      attentionQNorm := norms.1
      attentionKNorm := norms.2
      ffnNorm
      ffn := ⟨gate, up, down⟩ }

/-- `gguf.architecture().unwrap_or_default()` -/
def boundArchitecture (gguf : GgufFile) : Str := gguf.architecture.getD []

/-- `LlamaTensorBinding::bind` -/
def LlamaTensorBinding.bind (gguf : GgufFile) (config : LlamaModelConfig) :
    EngineResult LlamaTensorBinding := do
  let tokenEmbedding ← gguf.requiredTensor "token_embd.weight"
  let outputNorm ← gguf.requiredTensor "output_norm.weight"
  let output := gguf.findTensor "output.weight"
  let architecture := boundArchitecture gguf
  checkKeyValueLengths gguf architecture
  let layers ← (List.range config.blockCount).mapM (bindLayer gguf architecture)
  let binding : LlamaTensorBinding :=
    { tokenEmbedding, outputNorm
      output := output.getD tokenEmbedding
      outputIsTiedEmbedding := output.isNone
      ropeFreqs := gguf.findTensor "rope_freqs.weight"
      layers }
  binding.validateDenseShapes config
  .ok binding

-- ---------------------------------------------------------------------------
-- Fused projections
-- ---------------------------------------------------------------------------

/-- A plain sum of sizes. -/
def plainAdd (a b : Nat) : EngineResult Nat := if a + b < 2 ^ 64 then .ok (a + b) else .fault .overflow

/-- A fused `attn_qkv` in place of `attn_q`. -/
def rejectFusedAttention (gguf : GgufFile) (qRows kvRows layer : Nat) : EngineResult Unit :=
  match gguf.findTensor (layerTensorName layer "attn_q"),
    (gguf.findTensor (layerTensorName layer "attn_qkv")).map TensorDescriptor.dims with
  | none, some [_, rows] => do
    let both ← plainMul 2 kvRows
    let fused ← plainAdd qRows both
    if rows = fused then
      .err (.UnsupportedGguf
        s!"layer {layer} carries a fused attn_qkv projection; splitting fused attention projections is not implemented on this path")
    else .ok ()
  | _, _ => .ok ()

/-- A fused `ffn_up` in place of `ffn_gate`. -/
def rejectFusedFeedForward (gguf : GgufFile) (ffn layer : Nat) : EngineResult Unit :=
  match gguf.findTensor (layerTensorName layer "ffn_gate"),
    (gguf.findTensor (layerTensorName layer "ffn_up")).map TensorDescriptor.dims with
  | none, some [_, rows] =>
    if rows = 2 * ffn then
      .err (.UnsupportedGguf
        s!"layer {layer} carries a fused gate-up projection; splitting fused feed-forward projections is not implemented on this path")
    else .ok ()
  | _, _ => .ok ()

/-- `expand_fused_dense_tensors` -/
def expandFusedDenseTensors (gguf : GgufFile) (config : LlamaModelConfig) : EngineResult Unit :=
  let headCount := max config.attentionHeadCount 1
  let headDim := config.attentionKeyLength.getD (config.embeddingLength / headCount)
  let qRows := headDim * config.attentionHeadCount
  let kvRows := headDim * config.attentionHeadCountKv
  Outcome.each (fun layer => do
    rejectFusedAttention gguf qRows kvRows layer
    rejectFusedFeedForward gguf config.feedForwardLength layer) (List.range config.blockCount)

-- ---------------------------------------------------------------------------
-- What a binding holds
-- ---------------------------------------------------------------------------

theorem Gguf.GgufFile.findTensor_eq_some {gguf : GgufFile} {name : String}
    {tensor : TensorDescriptor} (h : gguf.findTensor name = some tensor) :
    tensor ∈ gguf.tensors ∧ tensor.name = name.toList := by
  have hname := List.find?_some h
  exact ⟨List.mem_of_find?_eq_some h, by simpa using hname⟩

theorem Gguf.GgufFile.requiredTensor_eq_ok {gguf : GgufFile} {name : String}
    {tensor : TensorDescriptor} :
    gguf.requiredTensor name = .ok tensor ↔ gguf.findTensor name = some tensor :=
  Outcome.okOr_eq_ok

/-- The descriptors of a layer are those of its names. -/
structure LlamaLayerTensors.Bound (gguf : GgufFile) (layerIdx : Nat) (layer : LlamaLayerTensors) :
    Prop where
  attentionNorm : gguf.findTensor (layerTensorName layerIdx "attn_norm") = some layer.attentionNorm
  attentionQ : gguf.findTensor (layerTensorName layerIdx "attn_q") = some layer.attentionQ
  attentionK : gguf.findTensor (layerTensorName layerIdx "attn_k") = some layer.attentionK
  attentionV : gguf.findTensor (layerTensorName layerIdx "attn_v") = some layer.attentionV
  attentionOutput :
    gguf.findTensor (layerTensorName layerIdx "attn_output") = some layer.attentionOutput
  ffnNorm : gguf.findTensor (layerTensorName layerIdx "ffn_norm") = some layer.ffnNorm
  gate : gguf.findTensor (layerTensorName layerIdx "ffn_gate") = some layer.ffn.gate
  up : gguf.findTensor (layerTensorName layerIdx "ffn_up") = some layer.ffn.up
  down : gguf.findTensor (layerTensorName layerIdx "ffn_down") = some layer.ffn.down
  qkNorms : bindQkNorms gguf (boundArchitecture gguf) layerIdx =
    .ok (layer.attentionQNorm, layer.attentionKNorm)

theorem bindLayer_eq_ok {gguf : GgufFile} {layerIdx : Nat} {layer : LlamaLayerTensors}
    (h : bindLayer gguf (boundArchitecture gguf) layerIdx = .ok layer) :
    layer.Bound gguf layerIdx := by
  obtain ⟨norms, hnorms, h⟩ := Outcome.bind_eq_ok.mp h
  obtain ⟨attentionNorm, h1, h⟩ := Outcome.bind_eq_ok.mp h
  obtain ⟨attentionQ, h2, h⟩ := Outcome.bind_eq_ok.mp h
  obtain ⟨attentionK, h3, h⟩ := Outcome.bind_eq_ok.mp h
  obtain ⟨attentionV, h4, h⟩ := Outcome.bind_eq_ok.mp h
  obtain ⟨attentionOutput, h5, h⟩ := Outcome.bind_eq_ok.mp h
  obtain ⟨ffnNorm, h6, h⟩ := Outcome.bind_eq_ok.mp h
  obtain ⟨gate, h7, h⟩ := Outcome.bind_eq_ok.mp h
  obtain ⟨up, h8, h⟩ := Outcome.bind_eq_ok.mp h
  obtain ⟨down, h9, h⟩ := Outcome.bind_eq_ok.mp h
  obtain rfl := Outcome.ok.inj h
  have hfound := @GgufFile.requiredTensor_eq_ok gguf
  exact ⟨hfound.mp h1, hfound.mp h2, hfound.mp h3, hfound.mp h4, hfound.mp h5, hfound.mp h6,
    hfound.mp h7, hfound.mp h8, hfound.mp h9, hnorms⟩

/-- The QK norms of a layer are bound just where the architecture has them. -/
theorem bindQkNorms_eq_ok {gguf : GgufFile} {architecture : Str} {layerIdx : Nat}
    {norms : Option TensorDescriptor × Option TensorDescriptor}
    (h : bindQkNorms gguf architecture layerIdx = .ok norms) :
    (expectsQkNorm architecture = true ∧ ∃ q k, norms = (some q, some k) ∧
        gguf.findTensor (layerTensorName layerIdx "attn_q_norm") = some q ∧
        gguf.findTensor (layerTensorName layerIdx "attn_k_norm") = some k) ∨
      (expectsQkNorm architecture = false ∧ norms = (none, none)) := by
  unfold bindQkNorms at h
  dsimp only at h
  split at h
  · rename_i hexpects
    split at h
    · exact absurd h (by simp)
    rename_i hpresent
    simp only [Bool.or_eq_true, not_or, Option.isNone_iff_eq_none] at hpresent
    obtain ⟨q, hq⟩ := Option.ne_none_iff_exists'.mp hpresent.1
    obtain ⟨k, hk⟩ := Option.ne_none_iff_exists'.mp hpresent.2
    have hnorms := (Outcome.ok.inj h).symm
    rw [hq, hk] at hnorms
    exact .inl ⟨hexpects, q, k, hnorms, hq, hk⟩
  · rename_i hexpects
    split at h
    · exact absurd h (by simp)
    · exact .inr ⟨by simpa using hexpects, (Outcome.ok.inj h).symm⟩

/-- What a successful binding looked up. -/
theorem LlamaTensorBinding.bind_steps {gguf : GgufFile} {config : LlamaModelConfig}
    {binding : LlamaTensorBinding} (h : LlamaTensorBinding.bind gguf config = .ok binding) :
    gguf.findTensor "token_embd.weight" = some binding.tokenEmbedding ∧
      gguf.findTensor "output_norm.weight" = some binding.outputNorm ∧
      binding.output = (gguf.findTensor "output.weight").getD binding.tokenEmbedding ∧
      binding.outputIsTiedEmbedding = (gguf.findTensor "output.weight").isNone ∧
      binding.ropeFreqs = gguf.findTensor "rope_freqs.weight" ∧
      binding.layers.length = config.blockCount ∧
      (∀ (i : Nat) (layer : LlamaLayerTensors), binding.layers[i]? = some layer →
        layer.Bound gguf i) ∧
      binding.validateDenseShapes config = .ok () := by
  obtain ⟨tokenEmbedding, hembedding, h⟩ := Outcome.bind_eq_ok.mp h
  obtain ⟨outputNorm, hnorm, h⟩ := Outcome.bind_eq_ok.mp h
  obtain ⟨-, h⟩ := Outcome.check_eq_ok.mp h
  obtain ⟨layers, hlayers, h⟩ := Outcome.bind_eq_ok.mp h
  obtain ⟨hshapes, h⟩ := Outcome.check_eq_ok.mp h
  obtain rfl := Outcome.ok.inj h
  refine ⟨GgufFile.requiredTensor_eq_ok.mp hembedding, GgufFile.requiredTensor_eq_ok.mp hnorm, rfl,
    rfl, rfl, ?_, ?_, hshapes⟩
  · have hlength := Outcome.length_of_mapM hlayers
    rw [List.length_range] at hlength
    exact hlength
  · intro i layer hget
    obtain ⟨layerIdx, hidx, hbound⟩ := Outcome.getElem?_of_mapM hlayers hget
    have hi : i < config.blockCount := by
      have hlt := (List.getElem?_eq_some_iff.mp hidx).1
      rwa [List.length_range] at hlt
    rw [List.getElem?_range hi] at hidx
    obtain rfl := Option.some.inj hidx
    exact bindLayer_eq_ok hbound

-- ---------------------------------------------------------------------------
-- Layer tensors that are not bound
-- ---------------------------------------------------------------------------

/-- The parts of a layer that are bound. -/
def layerParts (architecture : Str) : List String :=
  ["attn_norm", "attn_q", "attn_k", "attn_v", "attn_output", "ffn_norm", "ffn_gate", "ffn_up",
    "ffn_down"] ++ if expectsQkNorm architecture then ["attn_q_norm", "attn_k_norm"] else []

/-- The descriptors a layer holds. -/
def LlamaLayerTensors.descriptors (layer : LlamaLayerTensors) : List TensorDescriptor :=
  [layer.attentionNorm, layer.attentionQ, layer.attentionK, layer.attentionV,
    layer.attentionOutput, layer.ffnNorm, layer.ffn.gate, layer.ffn.up, layer.ffn.down] ++
    (layer.attentionQNorm.toList ++ layer.attentionKNorm.toList)

/-- The descriptors a binding holds. -/
def LlamaTensorBinding.descriptors (binding : LlamaTensorBinding) : List TensorDescriptor :=
  [binding.tokenEmbedding, binding.outputNorm, binding.output] ++ binding.ropeFreqs.toList ++
    binding.layers.flatMap LlamaLayerTensors.descriptors

/-- The name is that of a tensor of some layer. -/
def IsLayerName (name : Str) : Prop := "blk.".toList <+: name

instance (name : Str) : Decidable (IsLayerName name) :=
  inferInstanceAs (Decidable ("blk.".toList <+: name))

/-- The tensor is what the binder finds under a name it looks up for a layer. -/
def LookedUp (gguf : GgufFile) (config : LlamaModelConfig) (tensor : TensorDescriptor) : Prop :=
  ∃ i < config.blockCount, ∃ part ∈ layerParts (boundArchitecture gguf),
    gguf.findTensor (layerTensorName i part) = some tensor

/-- A layer holds what is found under the names of its parts, and nothing else. -/
theorem LlamaLayerTensors.Bound.mem_descriptors {gguf : GgufFile} {layerIdx : Nat}
    {layer : LlamaLayerTensors} (h : layer.Bound gguf layerIdx) {tensor : TensorDescriptor} :
    tensor ∈ layer.descriptors ↔ ∃ part ∈ layerParts (boundArchitecture gguf),
      gguf.findTensor (layerTensorName layerIdx part) = some tensor := by
  have hparts : (∃ part ∈ ["attn_norm", "attn_q", "attn_k", "attn_v", "attn_output", "ffn_norm",
        "ffn_gate", "ffn_up", "ffn_down"],
        gguf.findTensor (layerTensorName layerIdx part) = some tensor) ↔
      tensor ∈ [layer.attentionNorm, layer.attentionQ, layer.attentionK, layer.attentionV,
        layer.attentionOutput, layer.ffnNorm, layer.ffn.gate, layer.ffn.up, layer.ffn.down] := by
    simp only [List.mem_cons, List.not_mem_nil, or_false, exists_eq_or_imp, exists_eq_left,
      h.attentionNorm, h.attentionQ, h.attentionK, h.attentionV, h.attentionOutput, h.ffnNorm,
      h.gate, h.up, h.down, Option.some.injEq, eq_comm]
  unfold layerParts LlamaLayerTensors.descriptors
  rw [List.mem_append, ← hparts]
  simp only [List.mem_append, or_and_right, exists_or]
  refine or_congr_right ?_
  rcases bindQkNorms_eq_ok h.qkNorms with ⟨hexpects, q, k, hnorms, hq, hk⟩ | ⟨hexpects, hnorms⟩
  · obtain ⟨hqNorm, hkNorm⟩ := Prod.mk.inj hnorms
    rw [hqNorm, hkNorm, hexpects, if_pos rfl]
    simp only [Option.toList_some, List.mem_cons, List.not_mem_nil, or_false, exists_eq_or_imp,
      exists_eq_left, hq, hk, Option.some.injEq, eq_comm]
  · obtain ⟨hqNorm, hkNorm⟩ := Prod.mk.inj hnorms
    rw [hqNorm, hkNorm, hexpects]
    simp

/-- The tensors bound outside the layers have other names. -/
theorem LlamaTensorBinding.mem_descriptors_of_layerName {gguf : GgufFile}
    {config : LlamaModelConfig} {binding : LlamaTensorBinding}
    (h : LlamaTensorBinding.bind gguf config = .ok binding) {tensor : TensorDescriptor}
    (hname : IsLayerName tensor.name) :
    tensor ∈ binding.descriptors ↔ ∃ layer ∈ binding.layers, tensor ∈ layer.descriptors := by
  obtain ⟨hembedding, hnorm, houtput, -, hrope, -, -, -⟩ := bind_steps h
  have hother : ∀ {name : String} {other : TensorDescriptor}, ¬ IsLayerName name.toList →
      gguf.findTensor name = some other → tensor ≠ other := by
    intro name other hnot hfound heq
    subst heq
    rw [(GgufFile.findTensor_eq_some hfound).2] at hname
    exact hnot hname
  have h1 : tensor ≠ binding.tokenEmbedding := hother (by decide +kernel) hembedding
  have h2 : tensor ≠ binding.outputNorm := hother (by decide +kernel) hnorm
  have h3 : tensor ≠ binding.output := by
    rw [houtput]
    rcases hfound : gguf.findTensor "output.weight" with _ | output
    · exact h1
    · exact hother (by decide +kernel) hfound
  have h4 : tensor ∉ binding.ropeFreqs.toList := by
    rw [hrope]
    rcases hfound : gguf.findTensor "rope_freqs.weight" with _ | ropeFreqs
    · exact List.not_mem_nil
    · have hne : tensor ≠ ropeFreqs := hother (by decide +kernel) hfound
      simpa using hne
  unfold descriptors
  simp only [List.mem_append, List.mem_cons, List.not_mem_nil, or_false, h1, h2, h3, h4, false_or,
    List.mem_flatMap]

/-- **What the binder ignores.** A header that passes is bound without leaving out
a tensor of a layer just when each of them is found under a name the binder looks
up: a layer below the block count, and one of the parts it knows. -/
theorem bind_holds_every_layer_tensor_iff {gguf : GgufFile} {config : LlamaModelConfig}
    {binding : LlamaTensorBinding} (hbind : LlamaTensorBinding.bind gguf config = .ok binding) :
    (∀ tensor ∈ gguf.tensors, IsLayerName tensor.name → tensor ∈ binding.descriptors) ↔
      ∀ tensor ∈ gguf.tensors, IsLayerName tensor.name → LookedUp gguf config tensor := by
  obtain ⟨-, -, -, -, -, hlength, hbound, -⟩ := LlamaTensorBinding.bind_steps hbind
  have hheld : ∀ tensor : TensorDescriptor,
      (∃ layer ∈ binding.layers, tensor ∈ layer.descriptors) ↔ LookedUp gguf config tensor := by
    intro tensor
    unfold LookedUp
    constructor
    · rintro ⟨layer, hmem, htensor⟩
      obtain ⟨i, hget⟩ := List.mem_iff_getElem?.mp hmem
      have hi : i < binding.layers.length := (List.getElem?_eq_some_iff.mp hget).1
      exact ⟨i, by omega, (hbound i layer hget).mem_descriptors.mp htensor⟩
    · rintro ⟨i, hi, hpart⟩
      have hi' : i < binding.layers.length := by omega
      have hget := List.getElem?_eq_getElem hi'
      exact ⟨_, List.mem_of_getElem? hget, (hbound i _ hget).mem_descriptors.mpr hpart⟩
  refine forall_congr' fun tensor => forall_congr' fun _ => forall_congr' fun hname => ?_
  rw [LlamaTensorBinding.mem_descriptors_of_layerName hbind hname, hheld]

/-- A header of one layer: every projection is square, and `more` follows the
tensors that are bound. -/
def squareHeader (architecture : String) (more : List (String × List UInt64)) : GgufFile :=
  let entries : List (String × MetadataValue) :=
    [("general.architecture", .String architecture.toList)] ++
      [("context_length", 8), ("embedding_length", 2), ("block_count", 1),
        ("feed_forward_length", 2), ("attention.head_count", 1)].map fun (entry : String × UInt32) =>
          (architecture ++ "." ++ entry.1, .U32 entry.2)
  let bound : List (String × List UInt64) :=
    [("token_embd.weight", [2, 2]), ("output_norm.weight", [2])] ++
      ["attn_norm", "ffn_norm"].map (fun part => (layerTensorName 0 part, [2])) ++
      ["attn_q", "attn_k", "attn_v", "attn_output", "ffn_gate", "ffn_up", "ffn_down"].map
        fun part => (layerTensorName 0 part, [2, 2])
  let tensors := (bound ++ more).zipIdx.map fun (tensor, i) =>
    { name := tensor.1.toList, dimensions := tensor.2, tensorType := TensorType.F32
      relativeOffset := 32 * .ofNat i, absoluteOffset := 4096 + 32 * .ofNat i
      nBytes := 4 * tensor.2.foldl (· * ·) 1 : TensorDescriptor }
  { version := 3, tensorCount := .ofNat tensors.length, metadataCount := 6, alignment := 32
    dataStartOffset := 4096
    metadata := entries.foldl (fun metadata entry => metadata.insert entry.1.toList entry.2) ∅
    tensors }

/-- The bias of the query projection, behind the tensors that are bound. -/
def biasTensor : TensorDescriptor :=
  { name := "blk.0.attn_q.bias".toList, dimensions := [2], tensorType := .F32
    relativeOffset := 352, absoluteOffset := 4448, nBytes := 8 }

/-- A file with the bias of a projection that is bound passes, and the bias is in no
descriptor of its binding. -/
theorem bind_drops_attention_bias :
    let gguf := squareHeader "qwen2" [("blk.0.attn_q.bias", [2])]
    ∃ config binding, LlamaModelConfig.fromGguf gguf = .ok config ∧
      expandFusedDenseTensors gguf config = .ok () ∧
      LlamaTensorBinding.bind gguf config = .ok binding ∧
      biasTensor ∈ gguf.tensors ∧ IsLayerName biasTensor.name ∧
      biasTensor ∉ binding.descriptors := by
  intro gguf
  have hchecked : (do
      let config ← LlamaModelConfig.fromGguf gguf
      expandFusedDenseTensors gguf config
      let binding ← LlamaTensorBinding.bind gguf config
      .ok (biasTensor ∈ binding.descriptors) : EngineResult Bool) = .ok false := by decide +kernel
  have hmem : biasTensor ∈ gguf.tensors := by decide +kernel
  have hname : IsLayerName biasTensor.name := by decide +kernel
  obtain ⟨config, hconfig, h⟩ := Outcome.bind_eq_ok.mp hchecked
  obtain ⟨hfused, h⟩ := Outcome.check_eq_ok.mp h
  obtain ⟨binding, hbinding, h⟩ := Outcome.bind_eq_ok.mp h
  exact ⟨config, binding, hconfig, hfused, hbinding, hmem, hname,
    of_decide_eq_false (Outcome.ok.inj h)⟩

/-- Without more tensors, all of them are bound. -/
theorem bind_holds_every_layer_tensor_square :
    let gguf := squareHeader "qwen2" []
    ∃ config binding, LlamaTensorBinding.bind gguf config = .ok binding ∧
      ∀ tensor ∈ gguf.tensors, IsLayerName tensor.name → tensor ∈ binding.descriptors := by
  intro gguf
  have hchecked : (do
      let config ← LlamaModelConfig.fromGguf gguf
      let binding ← LlamaTensorBinding.bind gguf config
      .ok (config.blockCount, binding.layers.length) : EngineResult (Nat × Nat)) = .ok (1, 1) := by
    decide +kernel
  obtain ⟨config, -, h⟩ := Outcome.bind_eq_ok.mp hchecked
  obtain ⟨binding, hbinding, h⟩ := Outcome.bind_eq_ok.mp h
  have hblocks : config.blockCount = 1 := (Prod.mk.inj (Outcome.ok.inj h)).1
  refine ⟨config, binding, hbinding, (bind_holds_every_layer_tensor_iff hbinding).mpr ?_⟩
  have hall : ∀ tensor ∈ gguf.tensors, IsLayerName tensor.name →
      ∃ part ∈ layerParts (boundArchitecture gguf),
        gguf.findTensor (layerTensorName 0 part) = some tensor := by decide +kernel
  intro tensor hmem hname
  exact ⟨0, by omega, hall tensor hmem hname⟩

end CamelidEnterprise

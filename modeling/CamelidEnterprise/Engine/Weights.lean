import CamelidEnterprise.Engine.Rope

/-!
# Camelid Enterprise — materialized weights

The weights of `crates/engine-core/src/model/weights.rs` as the forward pass reads
them, and their check against the dimensions of a configuration. Reading them from
a file is in `Engine/Load.lean`.

Key results: `shaped_of_validate` and `validate_of_shaped`, the shapes of weights that
pass.
-/

namespace CamelidEnterprise

open Foundation

/-- `LlamaLayerWeights` -/
structure LlamaLayerWeights where
  attentionNorm : CpuTensor
  attentionQ : CpuTensor
  attentionK : CpuTensor
  attentionV : CpuTensor
  attentionOutput : CpuTensor
  attentionQNorm : Option CpuTensor
  attentionKNorm : Option CpuTensor
  ffnNorm : CpuTensor
  ffnGate : CpuTensor
  ffnUp : CpuTensor
  ffnDown : CpuTensor
deriving DecidableEq

/-- `LlamaWeights` -/
structure LlamaWeights where
  tokenEmbedding : CpuTensor
  outputNorm : CpuTensor
  output : Option CpuTensor
  ropeFreqs : Option CpuTensor
  layers : List LlamaLayerWeights
deriving DecidableEq

/-- `output_projection` -/
def LlamaWeights.outputProjection (weights : LlamaWeights) : CpuTensor :=
  weights.output.getD weights.tokenEmbedding

-- ---------------------------------------------------------------------------
-- Shapes
-- ---------------------------------------------------------------------------

/-- `require_tensor_shape` -/
def requireTensorShape (tensor : CpuTensor) (expected : List Nat) (role : String) :
    EngineResult Unit :=
  if tensor.dims ≠ expected then
    .err (.ShapeMismatch
      s!"{role} tensor {display tensor.name} expected shape {debugDims expected}, got {debugDims tensor.dims}")
  else .ok ()

/-- `require_matrix_shape` -/
def requireMatrixShape (tensor : CpuTensor) (inputWidth outputWidth : Nat) (role : String) :
    EngineResult Unit :=
  let direct := [inputWidth, outputWidth]
  let transposed := [outputWidth, inputWidth]
  if tensor.dims ≠ direct ∧ tensor.dims ≠ transposed then
    .err (.ShapeMismatch
      s!"{role} tensor {display tensor.name} expected shape {debugDims direct} or {debugDims transposed}, got {debugDims tensor.dims}")
  else .ok ()

/-- `validate_rope_frequency_tensor` of `weights.rs` -/
def LlamaWeights.validateRopeFrequencyTensor [FloatOps] (ropeFreqs : CpuTensor) (ropeDim : Nat) :
    EngineResult Unit := do
  if ropeDim = 0 ∨ ropeDim % 2 ≠ 0 then
    .err (.InvalidModelMetadata
      s!"RoPE dimension count {ropeDim} must be even and greater than zero")
  else do
    let _ ← CamelidEnterprise.validateRopeFrequencyTensor ropeFreqs ropeDim
    .ok ()

/-- QK-norm weights are loaded as a pair or not at all. -/
def LlamaLayerWeights.validateQkNorms (layer : LlamaLayerWeights) (dims : DenseLlamaDims)
    (idx : Nat) : EngineResult Unit :=
  match layer.attentionQNorm, layer.attentionKNorm with
  | some qNorm, some kNorm => do
    requireTensorShape qNorm [dims.headDim] s!"layer {idx} attention q_norm"
    requireTensorShape kNorm [dims.headDim] s!"layer {idx} attention k_norm"
  | none, none => .ok ()
  | _, _ =>
    .err (.ShapeMismatch
      s!"layer {idx} has exactly one of attn_q_norm/attn_k_norm loaded; QK-norm weights must be present as a pair")

/-- The checks of one layer. -/
def LlamaLayerWeights.validateDenseShapes (layer : LlamaLayerWeights) (dims : DenseLlamaDims)
    (idx : Nat) : EngineResult Unit := do
  let emb := dims.embeddingLength
  requireTensorShape layer.attentionNorm [emb] s!"layer {idx} attention norm"
  requireMatrixShape layer.attentionQ emb dims.qWidth s!"layer {idx} attention q"
  requireMatrixShape layer.attentionK emb dims.kvWidth s!"layer {idx} attention k"
  requireMatrixShape layer.attentionV emb dims.kvWidth s!"layer {idx} attention v"
  requireMatrixShape layer.attentionOutput dims.qWidth emb s!"layer {idx} attention output"
  layer.validateQkNorms dims idx
  requireTensorShape layer.ffnNorm [emb] s!"layer {idx} ffn norm"
  requireMatrixShape layer.ffnGate emb dims.feedForwardLength s!"layer {idx} ffn gate"
  requireMatrixShape layer.ffnUp emb dims.feedForwardLength s!"layer {idx} ffn up"
  requireMatrixShape layer.ffnDown dims.feedForwardLength emb s!"layer {idx} ffn down"

/-- The check of the frequency factors, where there are any. -/
def LlamaWeights.validateRopeFreqs [FloatOps] (weights : LlamaWeights) (ropeDim : Nat) :
    EngineResult Unit :=
  match weights.ropeFreqs with
  | some ropeFreqs => LlamaWeights.validateRopeFrequencyTensor ropeFreqs ropeDim
  | none => .ok ()

/-- `LlamaWeights::validate_dense_shapes` -/
def LlamaWeights.validateDenseShapes [FloatOps] (weights : LlamaWeights)
    (config : LlamaModelConfig) : EngineResult Unit := do
  let dims ← DenseLlamaDims.fromConfig config
  requireTensorShape weights.tokenEmbedding [dims.vocabSize, dims.embeddingLength]
    "token embedding"
  requireTensorShape weights.outputNorm [dims.embeddingLength] "output norm"
  requireMatrixShape weights.outputProjection dims.embeddingLength dims.vocabSize
    "output projection"
  weights.validateRopeFreqs (config.ropeDim dims.headDim)
  if weights.layers.length ≠ dims.blockCount then
    .err (.ShapeMismatch
      s!"config block count {dims.blockCount} does not match loaded layer count {weights.layers.length}")
  else
    Outcome.each (fun (layer, idx) => layer.validateDenseShapes dims idx) weights.layers.zipIdx

-- ---------------------------------------------------------------------------
-- Weights that pass
-- ---------------------------------------------------------------------------

/-- A linear in either orientation. -/
def Oriented (tensor : CpuTensor) (inputWidth outputWidth : Nat) : Prop :=
  tensor.dims = [inputWidth, outputWidth] ∨ tensor.dims = [outputWidth, inputWidth]

theorem requireTensorShape_eq_ok {tensor : CpuTensor} {expected : List Nat} {role : String} :
    requireTensorShape tensor expected role = .ok () ↔ tensor.dims = expected := by
  unfold requireTensorShape
  split
  · rename_i h
    simp [h]
  · rename_i h
    simpa using h

theorem requireMatrixShape_eq_ok {tensor : CpuTensor} {inputWidth outputWidth : Nat}
    {role : String} :
    requireMatrixShape tensor inputWidth outputWidth role = .ok () ↔
      Oriented tensor inputWidth outputWidth := by
  unfold requireMatrixShape Oriented
  dsimp only
  split
  · rename_i h
    simp [h]
  · rename_i h
    simp only [true_iff]
    tauto

/-- The shapes of a layer. -/
structure LlamaLayerWeights.Shaped (layer : LlamaLayerWeights) (dims : DenseLlamaDims) : Prop where
  attentionNorm : layer.attentionNorm.dims = [dims.embeddingLength]
  attentionQ : Oriented layer.attentionQ dims.embeddingLength dims.qWidth
  attentionK : Oriented layer.attentionK dims.embeddingLength dims.kvWidth
  attentionV : Oriented layer.attentionV dims.embeddingLength dims.kvWidth
  attentionOutput : Oriented layer.attentionOutput dims.qWidth dims.embeddingLength
  qkNorms :
    (layer.attentionQNorm = none ∧ layer.attentionKNorm = none) ∨
      ∃ qNorm kNorm, layer.attentionQNorm = some qNorm ∧ layer.attentionKNorm = some kNorm ∧
        qNorm.dims = [dims.headDim] ∧ kNorm.dims = [dims.headDim]
  ffnNorm : layer.ffnNorm.dims = [dims.embeddingLength]
  ffnGate : Oriented layer.ffnGate dims.embeddingLength dims.feedForwardLength
  ffnUp : Oriented layer.ffnUp dims.embeddingLength dims.feedForwardLength
  ffnDown : Oriented layer.ffnDown dims.feedForwardLength dims.embeddingLength

theorem LlamaLayerWeights.validateDenseShapes_eq_ok {layer : LlamaLayerWeights}
    {dims : DenseLlamaDims} {idx : Nat} :
    layer.validateDenseShapes dims idx = .ok () ↔ layer.Shaped dims := by
  have hqk : layer.validateQkNorms dims idx = .ok () ↔
      (layer.attentionQNorm = none ∧ layer.attentionKNorm = none) ∨
      ∃ qNorm kNorm, layer.attentionQNorm = some qNorm ∧ layer.attentionKNorm = some kNorm ∧
        qNorm.dims = [dims.headDim] ∧ kNorm.dims = [dims.headDim] := by
    unfold validateQkNorms
    rcases layer.attentionQNorm with _ | qNorm
    · rcases layer.attentionKNorm with _ | kNorm
      · simp
      · simp
    · rcases layer.attentionKNorm with _ | kNorm
      · simp
      · dsimp only
        rw [Outcome.check_eq_ok, requireTensorShape_eq_ok, requireTensorShape_eq_ok]
        simp
  unfold validateDenseShapes
  dsimp only
  simp only [Outcome.check_eq_ok, hqk, requireTensorShape_eq_ok, requireMatrixShape_eq_ok]
  constructor
  · rintro ⟨h1, h2, h3, h4, h5, h6, h7, h8, h9, h10⟩
    exact ⟨h1, h2, h3, h4, h5, h6, h7, h8, h9, h10⟩
  · rintro ⟨h1, h2, h3, h4, h5, h6, h7, h8, h9, h10⟩
    exact ⟨h1, h2, h3, h4, h5, h6, h7, h8, h9, h10⟩

/-- The shapes of weights that pass the check. -/
theorem LlamaWeights.shaped_of_validate [FloatOps] {weights : LlamaWeights}
    {config : LlamaModelConfig} {dims : DenseLlamaDims}
    (hdims : DenseLlamaDims.fromConfig config = .ok dims)
    (h : weights.validateDenseShapes config = .ok ()) :
    weights.tokenEmbedding.dims = [dims.vocabSize, dims.embeddingLength] ∧
      weights.outputNorm.dims = [dims.embeddingLength] ∧
      Oriented weights.outputProjection dims.embeddingLength dims.vocabSize ∧
      weights.validateRopeFreqs (config.ropeDim dims.headDim) = .ok () ∧
      weights.layers.length = dims.blockCount ∧
      ∀ layer ∈ weights.layers, layer.Shaped dims := by
  unfold validateDenseShapes at h
  rw [hdims, Outcome.ok_bind] at h
  obtain ⟨hembedding, h⟩ := Outcome.check_eq_ok.mp h
  obtain ⟨hnorm, h⟩ := Outcome.check_eq_ok.mp h
  obtain ⟨houtput, h⟩ := Outcome.check_eq_ok.mp h
  obtain ⟨hrope, h⟩ := Outcome.check_eq_ok.mp h
  split at h
  · exact absurd h (by simp)
  rename_i hlayers
  refine ⟨requireTensorShape_eq_ok.mp hembedding, requireTensorShape_eq_ok.mp hnorm,
    requireMatrixShape_eq_ok.mp houtput, hrope, by omega, ?_⟩
  intro layer hlayer
  obtain ⟨idx, hidx⟩ := List.mem_iff_getElem?.mp hlayer
  have hmem : (layer, idx) ∈ weights.layers.zipIdx := List.mem_zipIdx_iff_getElem?.mpr hidx
  exact LlamaLayerWeights.validateDenseShapes_eq_ok.mp (Outcome.each_eq_ok.mp h _ hmem)

/-- Weights of these shapes pass. -/
theorem LlamaWeights.validate_of_shaped [FloatOps] {weights : LlamaWeights}
    {config : LlamaModelConfig} {dims : DenseLlamaDims}
    (hdims : DenseLlamaDims.fromConfig config = .ok dims)
    (hembedding : weights.tokenEmbedding.dims = [dims.vocabSize, dims.embeddingLength])
    (hnorm : weights.outputNorm.dims = [dims.embeddingLength])
    (houtput : Oriented weights.outputProjection dims.embeddingLength dims.vocabSize)
    (hrope : weights.validateRopeFreqs (config.ropeDim dims.headDim) = .ok ())
    (hcount : weights.layers.length = dims.blockCount)
    (hlayers : ∀ layer ∈ weights.layers, layer.Shaped dims) :
    weights.validateDenseShapes config = .ok () := by
  unfold validateDenseShapes
  rw [hdims, Outcome.ok_bind, Outcome.check_eq_ok, Outcome.check_eq_ok, Outcome.check_eq_ok,
    Outcome.check_eq_ok, requireTensorShape_eq_ok, requireTensorShape_eq_ok,
    requireMatrixShape_eq_ok, if_neg (not_not.mpr hcount)]
  refine ⟨hembedding, hnorm, houtput, hrope, Outcome.each_eq_ok.mpr ?_⟩
  rintro ⟨layer, idx⟩ hmem
  have hlayer := List.mem_of_getElem? (List.mem_zipIdx_iff_getElem?.mp hmem)
  exact LlamaLayerWeights.validateDenseShapes_eq_ok.mpr (hlayers layer hlayer)

end CamelidEnterprise

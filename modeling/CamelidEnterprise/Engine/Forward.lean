import CamelidEnterprise.Engine.KvCache
import CamelidEnterprise.Engine.Runtime
import CamelidEnterprise.Engine.Weights

/-!
# Camelid Enterprise — the dense decoder forward pass

`crates/engine-core/src/forward/compute.rs`: the linear projection, one transformer
layer, the fused causal attention, one token through the decoder, and the greedy
argmax. The key/value cache is the only part of a decoder that changes, so a
forward pass is an `Effect` on it; where it stops with an error, the cache keeps
what had been written.

`DenseModel` is a configuration with weights that passed their check, which is what
a model is loaded into; `DenseModel.forwardPass` is the decoder made from it, as
the loops of `Engine/Runtime.lean` drive it.

What is assumed, and where the representation is coarser than the source:

* the arithmetic of `f32` is the structure `FloatOps`, in the order of the source;
* the rows of a projection that are divided over threads are computed one after the other,
  which no row can tell.
-/

namespace CamelidEnterprise

open Foundation

variable [FloatOps]

-- ---------------------------------------------------------------------------
-- Linear projections
-- ---------------------------------------------------------------------------

/-- `linear_row` -/
def linearRow (weight : CpuTensor) (input : List F32) (projection : Q8Projection) :
    EngineResult (List F32) :=
  let inWidth := input.length
  if inWidth = 0 then .err (.ShapeMismatch "linear projection input row is empty")
  else
    match weight.q8_0Blocks with
    | some blocks =>
      if inWidth % 32 ≠ 0 then
        .err (.ShapeMismatch
          s!"Q8_0 linear input width {inWidth} is not block aligned (multiple of 32)")
      else
        let blocksPerRow := inWidth / 32
        if blocksPerRow = 0 ∨ blocks.length % blocksPerRow ≠ 0 then
          .err (.ShapeMismatch
            s!"Q8_0 linear weight {display weight.name} block count {blocks.length} is not a multiple of {blocksPerRow} blocks per row")
        else
          projection.run blocks blocksPerRow (quantizeQ8_0Blocks input)
            (blocks.length / blocksPerRow)
    | none =>
      if weight.data ≠ [] then
        if weight.data.length % inWidth ≠ 0 then
          .err (.ShapeMismatch
            s!"f32 linear weight {display weight.name} data length {weight.data.length} is not a multiple of input width {inWidth}")
        else
          (List.range (weight.data.length / inWidth)).mapM fun o => do
            let row ← Outcome.orPanic (Rows.row weight.data inWidth o)
            dotProduct row input
      else
        .err (.InvalidTensorData
          s!"linear weight {display weight.name} has neither Q8_0 blocks nor row-major f32 data")

/-- `Decoder`, without its cache. -/
structure Decoder where
  weights : LlamaWeights
  config : LlamaModelConfig
  dims : DenseLlamaDims
  attentionHeadCount : Nat
  projection : Q8Projection

-- ---------------------------------------------------------------------------
-- Attention
-- ---------------------------------------------------------------------------

/-- A quotient of sizes. -/
def plainDiv (a b : Nat) : EngineResult Nat := if b = 0 then .fault .panic else .ok (a / b)

/-- `copy_from_slice`, into an output of `len` elements. -/
def copyFromSlice (len : Nat) (row : List F32) : EngineResult (List F32) :=
  if row.length ≠ len then .fault .panic else .ok row

/-- `1.0 / (head_dim as f32).sqrt()` -/
def attentionScale (headDim : Nat) : F32 := 1 / FloatOps.sqrt (F32.ofInt headDim)

/-- The online softmax: the exponentials of the scores, and the reciprocal of
their sum. -/
def softmaxScores (scores : List F32) : EngineResult (List F32 × F32) :=
  let max := scores.foldl FloatOps.max F32.negInfinity
  let exponentials := scores.map fun score => FloatOps.exp (score - max)
  let sum := exponentials.foldl (· + ·) 0
  if sum.eq 0 ∨ !sum.isFinite then
    .err (.ShapeMismatch "attention softmax produced an invalid normalization sum")
  else .ok (exponentials, 1 / sum)

/-- `*out_value += probability * v`, over an output and a value row. -/
def axpy (probability : F32) (out value : List F32) : List F32 :=
  List.zipWith (fun o v => o + probability * v) out value ++ out.drop value.length

/-- One query head of `attention_context`. -/
def attentionHead (qHead : List F32) (kv : LlamaKvCache) (layerIdx position headDim kvHead : Nat) :
    EngineResult (List F32) :=
  if position + 1 = 1 then do
    let value ← kv.valueRow layerIdx 0 kvHead
    copyFromSlice headDim value
  else do
    let scores ← (List.range (position + 1)).mapM fun p => do
      let key ← kv.keyRow layerIdx p kvHead
      let dot ← dotProduct qHead key
      .ok (dot * attentionScale headDim)
    let softmax ← softmaxScores scores
    softmax.1.zipIdx.foldlM (fun out scored => do
      let value ← kv.valueRow layerIdx scored.2 kvHead
      .ok (axpy (scored.1 * softmax.2) out value)) (List.replicate headDim 0)

/-- `attention_context` -/
def attentionContext (q : List F32) (kv : LlamaKvCache)
    (layerIdx position headDim kvHeadCount attentionHeadCount : Nat) :
    EngineResult (List F32) := do
  let repeats ← plainDiv attentionHeadCount kvHeadCount
  let heads ← (List.range attentionHeadCount).mapM fun head => do
    let kvHead ← plainDiv head repeats
    let qHead ← Outcome.orPanic (Rows.row q headDim head)
    attentionHead qHead kv layerIdx position headDim kvHead
  .ok heads.flatten

-- ---------------------------------------------------------------------------
-- One layer
-- ---------------------------------------------------------------------------

namespace Decoder

/-- `config.rms_norm_epsilon` -/
def eps (decoder : Decoder) : F32 := ⟨decoder.config.rmsNormEpsilon⟩

/-- The per-head QK norms, where a layer has both. -/
def qkNorm (decoder : Decoder) (layer : LlamaLayerWeights) (q k : List F32) :
    EngineResult (List F32 × List F32) :=
  match layer.attentionQNorm, layer.attentionKNorm with
  | some qNorm, some kNorm => do
    let qTensor ← CpuTensor.fromF32 "q".toList [1, q.length] q
    let q ← qTensor.perHeadRmsNorm qNorm decoder.attentionHeadCount decoder.eps "q_norm".toList
    let kTensor ← CpuTensor.fromF32 "k".toList [1, k.length] k
    let k ← kTensor.perHeadRmsNorm kNorm decoder.dims.attentionHeadCountKv decoder.eps
      "k_norm".toList
    .ok (q.data, k.data)
  | _, _ => .ok (q, k)

/-- Steps (1) to (3) of `forward_layer`: norm, projections, QK norms and RoPE. -/
def project (decoder : Decoder) (layer : LlamaLayerWeights) (position : Nat)
    (hidden : CpuTensor) : EngineResult (List F32 × List F32 × List F32) := do
  let attnNorm ← hidden.rmsNorm layer.attentionNorm decoder.eps "attn_norm".toList
  let q ← linearRow layer.attentionQ attnNorm.data decoder.projection
  let k ← linearRow layer.attentionK attnNorm.data decoder.projection
  let v ← linearRow layer.attentionV attnNorm.data decoder.projection
  let normed ← decoder.qkNorm layer q k
  let q ← applyRope normed.1 position decoder.attentionHeadCount decoder.config
    decoder.weights.ropeFreqs
  let k ← applyRope normed.2 position decoder.dims.attentionHeadCountKv decoder.config
    decoder.weights.ropeFreqs
  .ok (q, k, v)

/-- The slices of a key and a value row for one head. -/
def headRow (decoder : Decoder) (k v : List F32) (kvHead : Nat) :
    EngineResult (List F32 × List F32) := do
  let key ← Outcome.orPanic (Rows.row k decoder.dims.headDim kvHead)
  let value ← Outcome.orPanic (Rows.row v decoder.dims.headDim kvHead)
  .ok (key, value)

/-- Steps (6) to (9) of `forward_layer`: output projection, residuals and FFN. -/
def finish (decoder : Decoder) (layer : LlamaLayerWeights) (hidden : CpuTensor)
    (context : List F32) : EngineResult CpuTensor := do
  let attnOutData ← linearRow layer.attentionOutput context decoder.projection
  let attnOut ← CpuTensor.fromF32 "attn_out".toList [1, attnOutData.length] attnOutData
  let residual ← hidden.add attnOut "residual".toList
  let ffnNorm ← residual.rmsNorm layer.ffnNorm decoder.eps "ffn_norm".toList
  let gate ← linearRow layer.ffnGate ffnNorm.data decoder.projection
  let up ← linearRow layer.ffnUp ffnNorm.data decoder.projection
  let gateTensor ← CpuTensor.fromF32 "gate".toList [1, gate.length] gate
  let upTensor ← CpuTensor.fromF32 "up".toList [1, up.length] up
  let activated ← gateTensor.siluMul upTensor "swiglu".toList
  let ffnOutData ← linearRow layer.ffnDown activated.data decoder.projection
  let ffnOut ← CpuTensor.fromF32 "ffn_out".toList [1, ffnOutData.length] ffnOutData
  residual.add ffnOut "layer_out".toList

/-- Step (4): one key and value row of every head. -/
def storeRows (decoder : Decoder) (layerIdx position : Nat) (k v : List F32) :
    Effect LlamaKvCache EngineError Unit :=
  Effect.each (fun kvHead => do
    let row ← .lift (decoder.headRow k v kvHead)
    LlamaKvCache.storeKvHeadRow layerIdx position kvHead row.1 row.2)
    (List.range decoder.dims.attentionHeadCountKv)

/-- `forward_layer` -/
def forwardLayer (decoder : Decoder) (hidden : CpuTensor) (layer : LlamaLayerWeights)
    (layerIdx position : Nat) : Effect LlamaKvCache EngineError CpuTensor := do
  let projected ← .lift (decoder.project layer position hidden)
  decoder.storeRows layerIdx position projected.2.1 projected.2.2
  let kv ← .get
  let context ← .lift (attentionContext projected.1 kv layerIdx position decoder.dims.headDim
    decoder.dims.attentionHeadCountKv decoder.attentionHeadCount)
  .lift (decoder.finish layer hidden context)

-- ---------------------------------------------------------------------------
-- One token
-- ---------------------------------------------------------------------------

/-- The final norm and the lm_head projection. -/
def logits (decoder : Decoder) (hidden : CpuTensor) : EngineResult CpuTensor := do
  let normed ←
    if decoder.weights.outputNorm.dims = [0] then .ok hidden
    else hidden.rmsNorm decoder.weights.outputNorm decoder.eps "output_norm".toList
  let data ← linearRow decoder.weights.outputProjection normed.data decoder.projection
  CpuTensor.fromF32 "logits".toList [1, decoder.dims.vocabSize] data

/-- The logits, when they are asked for. -/
def answer (decoder : Decoder) (hidden : CpuTensor) (computeLogits : Bool) :
    EngineResult (Option CpuTensor) :=
  if computeLogits then some <$> decoder.logits hidden else .ok none

/-- The hidden state a token starts from. -/
def embed (decoder : Decoder) (token : TokenId) : EngineResult CpuTensor :=
  decoder.weights.tokenEmbedding.embeddingLookup [token] "hidden".toList

/-- The loop over the layers. -/
def forwardLayers (decoder : Decoder) (position : Nat) :
    CpuTensor → List (LlamaLayerWeights × Nat) → Effect LlamaKvCache EngineError CpuTensor :=
  Effect.fold fun hidden layer => decoder.forwardLayer hidden layer.1 layer.2 position

/-- What `forward_token` does once a position is free. -/
def compute (decoder : Decoder) (token : TokenId) (computeLogits : Bool) :
    Effect LlamaKvCache EngineError (Option CpuTensor) := do
  let kv ← .get
  LlamaKvCache.ensurePositionCapacity (kv.position + 1)
  let hidden ← .lift (decoder.embed token)
  let hidden ← decoder.forwardLayers kv.position hidden decoder.weights.layers.zipIdx
  let logits ← .lift (decoder.answer hidden computeLogits)
  LlamaKvCache.advancePosition
  pure logits

end Decoder

/-- The first index of the strict maximum. -/
def argmaxIdx (data : List F32) : Nat :=
  (data.zipIdx.foldl (fun best scored => if best.1.lt scored.1 then scored else best)
    (F32.negInfinity, 0)).2

/-- `argmax` -/
def argmax (logits : CpuTensor) : EngineResult TokenId :=
  if logits.dims.length ≠ 2 ∨ logits.dims.head? ≠ some 1 then
    .err (.ShapeMismatch
      s!"greedy sampling expects logits shape [1, vocab], got {debugDims logits.dims}")
  else if logits.data = [] then
    .err (.ShapeMismatch "greedy sampling requires a non-empty logits row")
  else
    match logits.data.findIdx? fun v => !v.isFinite with
    | some idx =>
      .err (.ShapeMismatch s!"greedy sampling rejects non-finite logit at index {idx}")
    | none =>
      let best := argmaxIdx logits.data
      if best < 2 ^ 32 then .ok best
      else .err (.ShapeMismatch s!"argmax index {best} does not fit u32")

-- ---------------------------------------------------------------------------
-- Loaded weights and their decoder
-- ---------------------------------------------------------------------------

/-- A configuration and weights that passed their check against it. -/
structure DenseModel where
  config : LlamaModelConfig
  weights : LlamaWeights
  projection : Q8Projection
  dims : DenseLlamaDims
  dims_eq : DenseLlamaDims.fromConfig config = .ok dims
  shapes : weights.validateDenseShapes config = .ok ()

namespace DenseModel

/-- The decoder that `Decoder::with_q8_projection` makes, but for its cache. -/
def decoder (model : DenseModel) : Decoder :=
  { weights := model.weights
    config := model.config
    dims := model.dims
    attentionHeadCount := model.config.attentionHeadCount
    projection := model.projection }

/-- The cache that `Decoder::with_q8_projection` makes. -/
def newCache (model : DenseModel) : EngineResult LlamaKvCache := do
  let _ ← DenseLlamaDims.fromConfig model.config
  let plan ← LlamaKvCachePlan.fromConfig model.config
  LlamaKvCache.new plan

end DenseModel

namespace Decoder

variable {decoder : Decoder}

omit [FloatOps] in
theorem keeps_ensurePositionCapacity (required : Nat) :
    Effect.Keeps LlamaKvCache.position (LlamaKvCache.ensurePositionCapacity required) := by
  unfold LlamaKvCache.ensurePositionCapacity
  refine Effect.keeps_get fun kv => ?_
  split
  · exact Effect.keeps_lift _
  split
  · exact Effect.keeps_pure _
  · exact (Effect.keeps_lift _).bind fun _ => (Effect.keeps_lift _).bind fun _ =>
      (Effect.keeps_lift _).bind fun _ => (Effect.keeps_modify (by intro _; rfl)).bind fun _ =>
      (Effect.keeps_lift _).bind fun _ => Effect.keeps_modify (by intro _; rfl)

theorem keeps_storeRows (layerIdx position : Nat) (k v : List F32) :
    Effect.Keeps LlamaKvCache.position (decoder.storeRows layerIdx position k v) := by
  refine Effect.keeps_each (fun kvHead => (Effect.keeps_lift _).bind fun row => ?_) _
  unfold LlamaKvCache.storeKvHeadRow
  exact Effect.keeps_get fun kv => (Effect.keeps_lift _).bind fun _ =>
    (Effect.keeps_modify (by intro _; rfl)).bind fun _ => (Effect.keeps_lift _).bind fun _ =>
    Effect.keeps_modify (by intro _; rfl)

theorem keeps_forwardLayers (position : Nat) (hidden : CpuTensor)
    (layers : List (LlamaLayerWeights × Nat)) :
    Effect.Keeps LlamaKvCache.position (decoder.forwardLayers position hidden layers) := by
  refine Effect.keeps_fold (fun hidden layer => ?_) hidden layers
  exact (Effect.keeps_lift _).bind fun _ => (keeps_storeRows _ _ _ _).bind fun _ =>
    Effect.keeps_get fun _ => (Effect.keeps_lift _).bind fun _ => Effect.keeps_lift _

theorem compute_position {kv kv' : LlamaKvCache} {token : TokenId} {computeLogits : Bool}
    {logits : Option CpuTensor}
    (h : decoder.compute token computeLogits kv = (.ok logits, kv')) :
    kv'.position = kv.position + 1 := by
  obtain ⟨start, kv₀, hget, h⟩ := Effect.bind_eq_ok.mp h
  obtain ⟨hstart, rfl⟩ := Prod.mk.inj hget
  obtain rfl := Outcome.ok.inj hstart
  obtain ⟨⟨⟩, kv₁, hgrow, h⟩ := Effect.bind_eq_ok.mp h
  obtain ⟨hidden, kv₂, hembed, h⟩ := Effect.bind_eq_ok.mp h
  obtain ⟨-, rfl⟩ := Prod.mk.inj hembed
  obtain ⟨hidden', kv₃, hlayers, h⟩ := Effect.bind_eq_ok.mp h
  obtain ⟨logits', kv₄, hlogits, h⟩ := Effect.bind_eq_ok.mp h
  obtain ⟨-, rfl⟩ := Prod.mk.inj hlogits
  obtain ⟨⟨⟩, kv₅, hadvance, h⟩ := Effect.bind_eq_ok.mp h
  obtain ⟨-, rfl⟩ := Prod.mk.inj hadvance
  obtain ⟨-, rfl⟩ := Prod.mk.inj h
  have hgrown := keeps_ensurePositionCapacity (kv.position + 1) kv
  have hrun : (decoder.forwardLayers kv.position hidden decoder.weights.layers.zipIdx kv₁).2.position =
      kv₁.position := keeps_forwardLayers _ _ _ _
  rw [hgrow] at hgrown
  rw [hlayers] at hrun
  show kv₃.position + 1 = kv.position + 1
  rw [hrun, hgrown]

theorem compute_logits {kv kv' : LlamaKvCache} {token : TokenId} {logits : Option CpuTensor}
    (h : decoder.compute token true kv = (.ok logits, kv')) : logits.isSome = true := by
  obtain ⟨start, kv₀, -, h⟩ := Effect.bind_eq_ok.mp h
  obtain ⟨⟨⟩, kv₁, -, h⟩ := Effect.bind_eq_ok.mp h
  obtain ⟨hidden, kv₂, -, h⟩ := Effect.bind_eq_ok.mp h
  obtain ⟨hidden', kv₃, -, h⟩ := Effect.bind_eq_ok.mp h
  obtain ⟨logits', kv₄, hlogits, h⟩ := Effect.bind_eq_ok.mp h
  obtain ⟨⟨⟩, kv₅, -, h⟩ := Effect.bind_eq_ok.mp h
  obtain ⟨hreturned, -⟩ := Prod.mk.inj h
  obtain rfl := Outcome.ok.inj hreturned
  obtain ⟨hsome, -⟩ := Prod.mk.inj hlogits
  rw [answer, if_pos rfl] at hsome
  obtain ⟨computed, -, hmap⟩ := Outcome.bind_eq_ok.mp hsome
  obtain rfl := Outcome.ok.inj hmap
  rfl

end Decoder

/-- The decoder, as the decode loops drive it. -/
def DenseModel.forwardPass (model : DenseModel) :
    ForwardPass LlamaKvCache CpuTensor where
  contextLength := model.config.contextLength
  new := model.newCache
  position := LlamaKvCache.position
  compute := model.decoder.compute
  argmax := argmax
  new_position := by
    intro kv h
    obtain ⟨dims, -, h⟩ := Outcome.bind_eq_ok.mp h
    obtain ⟨plan, -, h⟩ := Outcome.bind_eq_ok.mp h
    rw [(LlamaKvCache.new_fits h).1]
  compute_position := fun _ _ _ _ _ h => Decoder.compute_position h
  compute_logits := fun _ _ _ _ h => Decoder.compute_logits h

end CamelidEnterprise

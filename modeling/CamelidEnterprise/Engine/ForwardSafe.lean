import CamelidEnterprise.Engine.ForwardEnds
import CamelidEnterprise.Engine.GgufWire
import CamelidEnterprise.Foundation.Machine

/-!
# Camelid Enterprise — no index out of range

From the bytes of a file to the slices of `forward_token`: `read_metadata` sizes the
tensors, the binder checks their declared shapes, the loaders decode them,
`validate_dense_shapes` checks what was decoded, and a forward pass cuts its rows
without a check of its own. A tensor in `Q5_1` is the one that is not decoded in full,
since its decoder takes longer blocks than its size was counted in; where the tensors
that are cut by rows (`LlamaTensorBinding.readByRows`) are not of that type, all four
places agree on every width, and all that can stop a call is the growth of the cache
(`LlamaKvCache.GrowthFits`).

Key result: `forwardToken_safe_iff`, over every run of calls.
-/

namespace CamelidEnterprise

open Foundation Gguf

-- ---------------------------------------------------------------------------
-- Loaded buffers
-- ---------------------------------------------------------------------------

/-- As many values are decoded as the shape has. -/
def Gguf.TensorDescriptor.InFull (desc : TensorDescriptor) : Prop :=
  desc.tensorType ≠ .Q5_1 ∨ desc.dims.prod = 0

/-- The descriptors of a layer whose rows the forward pass takes by their numbers. -/
def LlamaLayerTensors.readByRows (layer : LlamaLayerTensors) : List TensorDescriptor :=
  [layer.attentionNorm, layer.attentionQ, layer.attentionK, layer.attentionV, layer.ffnNorm] ++
    (layer.attentionQNorm.toList ++ layer.attentionKNorm.toList)

/-- Those of a binding. -/
def LlamaTensorBinding.readByRows (binding : LlamaTensorBinding) : List TensorDescriptor :=
  [binding.tokenEmbedding, binding.outputNorm] ++ binding.ropeFreqs.toList ++
    binding.layers.flatMap LlamaLayerTensors.readByRows

theorem LlamaLayerTensors.mem_descriptors_of_readByRows {layer : LlamaLayerTensors}
    {desc : TensorDescriptor} (h : desc ∈ layer.readByRows) : desc ∈ layer.descriptors := by
  unfold readByRows at h
  unfold descriptors
  simp only [List.mem_append, List.mem_cons, List.not_mem_nil, or_false] at h ⊢
  tauto

theorem LlamaTensorBinding.mem_descriptors_of_readByRows {binding : LlamaTensorBinding} {desc : TensorDescriptor}
    (h : desc ∈ binding.readByRows) : desc ∈ binding.descriptors := by
  unfold readByRows at h
  unfold descriptors
  simp only [List.mem_append, List.mem_cons, List.not_mem_nil, or_false, List.mem_flatMap] at h ⊢
  rcases h with (h | h) | ⟨layer, hlayer, h⟩
  · tauto
  · tauto
  · exact .inr ⟨layer, hlayer, LlamaLayerTensors.mem_descriptors_of_readByRows h⟩

section Loaded

variable [FloatOps] {store : TensorStore}

theorem TensorStore.loadCpuF32_plain (hwell : store.WellSized) {desc : TensorDescriptor}
    (hdesc : store.descriptor desc.name = .ok desc) (hfull : desc.InFull) {tensor : CpuTensor}
    (h : store.loadCpuF32 desc.name = .ok tensor) {dims : List Nat} (hdims : tensor.dims = dims) :
    tensor.Plain dims := by
  obtain ⟨desc', bytes, hdesc', hbytes, hdecoded⟩ := loadCpuF32_decoded h
  obtain rfl := Outcome.ok.inj (hdesc.symm.trans hdesc')
  obtain ⟨name, hdata⟩ := hdecoded.data_eq
  refine ⟨hdims, ?_⟩
  rw [length_of_decodeTensor (tensorBytes_eq_ok hwell hdesc hbytes) hdata,
    (decodedCount_eq_iff _ _).mpr hfull, ← hdecoded.dims_eq, hdims]

theorem TensorStore.loadLinear_values (hwell : store.WellSized) {desc : TensorDescriptor}
    (hdesc : store.descriptor desc.name = .ok desc) (hfull : desc.InFull) {name : Str}
    {tensor : CpuTensor} (h : store.loadQ8_0BlockBackedLinearAs desc.name name = .ok tensor)
    {inputWidth outputWidth : Nat} (hshape : Oriented tensor inputWidth outputWidth) :
    tensor.values.length = outputWidth * inputWidth := by
  have hdims := loadLinear_dims hdesc h
  have hprod : desc.dims.prod = outputWidth * inputWidth := by
    rw [← hdims]
    rcases hshape with hshape | hshape
    · rw [hshape, List.prod_pair, Nat.mul_comm]
    · rw [hshape, List.prod_pair]
  have hrank : desc.dims.length = 2 := by
    rw [← hdims]
    rcases hshape with hshape | hshape
    · rw [hshape]
      rfl
    · rw [hshape]
      rfl
  obtain ⟨-, hsized⟩ := loadLinear_sized hwell hdesc hrank h
  unfold CpuTensor.values
  rcases hblocks : tensor.q8_0Blocks with _ | blocks
  · rw [hblocks] at hsized
    dsimp only at hsized ⊢
    rw [hsized.2, (decodedCount_eq_iff _ _).mpr hfull, hprod]
  · rw [hblocks] at hsized
    dsimp only at hsized ⊢
    rw [Rows.length_flatMap_blocks Q8_0Block.length_dequantize, hsized.2, hprod]

/-- The steps of the load of a layer. -/
structure LlamaLayerWeights.LoadedFrom (weights : LlamaLayerWeights) (store : TensorStore)
    (layer : LlamaLayerTensors) : Prop where
  attentionQNorm : store.loadOptional layer.attentionQNorm = .ok weights.attentionQNorm
  attentionKNorm : store.loadOptional layer.attentionKNorm = .ok weights.attentionKNorm
  attentionNorm : store.loadCpuF32 layer.attentionNorm.name = .ok weights.attentionNorm
  attentionQ : store.loadQ8_0BlockBackedLinear layer.attentionQ.name = .ok weights.attentionQ
  attentionK : store.loadQ8_0BlockBackedLinear layer.attentionK.name = .ok weights.attentionK
  attentionV : store.loadQ8_0BlockBackedLinear layer.attentionV.name = .ok weights.attentionV
  attentionOutput :
    store.loadQ8_0BlockBackedLinear layer.attentionOutput.name = .ok weights.attentionOutput
  ffnNorm : store.loadCpuF32 layer.ffnNorm.name = .ok weights.ffnNorm
  ffnGate : store.loadQ8_0BlockBackedLinear layer.ffn.gate.name = .ok weights.ffnGate
  ffnUp : store.loadQ8_0BlockBackedLinear layer.ffn.up.name = .ok weights.ffnUp
  ffnDown : store.loadQ8_0BlockBackedLinear layer.ffn.down.name = .ok weights.ffnDown

theorem LlamaLayerWeights.load_steps {layer : LlamaLayerTensors} {weights : LlamaLayerWeights}
    (h : LlamaLayerWeights.load store layer = .ok weights) : weights.LoadedFrom store layer := by
  obtain ⟨qNorm, hqNorm, h⟩ := Outcome.bind_eq_ok.mp h
  obtain ⟨kNorm, hkNorm, h⟩ := Outcome.bind_eq_ok.mp h
  obtain ⟨attentionNorm, h1, h⟩ := Outcome.bind_eq_ok.mp h
  obtain ⟨attentionQ, h2, h⟩ := Outcome.bind_eq_ok.mp h
  obtain ⟨attentionK, h3, h⟩ := Outcome.bind_eq_ok.mp h
  obtain ⟨attentionV, h4, h⟩ := Outcome.bind_eq_ok.mp h
  obtain ⟨attentionOutput, h5, h⟩ := Outcome.bind_eq_ok.mp h
  obtain ⟨ffnNorm, h6, h⟩ := Outcome.bind_eq_ok.mp h
  obtain ⟨ffnGate, h7, h⟩ := Outcome.bind_eq_ok.mp h
  obtain ⟨ffnUp, h8, h⟩ := Outcome.bind_eq_ok.mp h
  obtain ⟨ffnDown, h9, h⟩ := Outcome.bind_eq_ok.mp h
  obtain rfl := Outcome.ok.inj h
  exact ⟨hqNorm, hkNorm, h1, h2, h3, h4, h5, h6, h7, h8, h9⟩

/-- A tensor that may be missing is loaded where it is there. -/
theorem TensorStore.loadOptional_eq_some {desc? : Option TensorDescriptor} {tensor : CpuTensor}
    (h : store.loadOptional desc? = .ok (some tensor)) :
    ∃ desc, desc? = some desc ∧ store.loadCpuF32 desc.name = .ok tensor := by
  rcases desc? with _ | desc
  · exact absurd (Outcome.ok.inj h) (by simp)
  · obtain ⟨tensor', hload, h⟩ := Outcome.bind_eq_ok.mp h
    obtain rfl := Option.some.inj (Outcome.ok.inj h)
    exact ⟨desc, rfl, hload⟩

/-- A loaded layer of the right shapes is read inside its buffers. -/
theorem LlamaLayerWeights.load_sound (hwell : store.WellSized) {layer : LlamaLayerTensors}
    (hfound : ∀ desc ∈ layer.descriptors, store.descriptor desc.name = .ok desc)
    (hfull : ∀ desc ∈ layer.readByRows, desc.InFull) {weights : LlamaLayerWeights}
    (h : LlamaLayerWeights.load store layer = .ok weights) {dims : DenseLlamaDims}
    (hshaped : weights.Shaped dims) : weights.Sound dims := by
  have hsteps := load_steps h
  have hplain : ∀ {desc : TensorDescriptor} {tensor : CpuTensor} {n : Nat},
      desc ∈ layer.readByRows → store.loadCpuF32 desc.name = .ok tensor → tensor.dims = [n] →
      tensor.Plain [n] := fun hmem hload hdims =>
    TensorStore.loadCpuF32_plain hwell
      (hfound _ (LlamaLayerTensors.mem_descriptors_of_readByRows hmem)) (hfull _ hmem) hload hdims
  have hvalues : ∀ {desc : TensorDescriptor} {tensor : CpuTensor} {m n : Nat},
      desc ∈ layer.readByRows → store.loadQ8_0BlockBackedLinear desc.name = .ok tensor →
      Oriented tensor m n → tensor.values.length = n * m := fun hmem hload hshape =>
    TensorStore.loadLinear_values hwell
      (hfound _ (LlamaLayerTensors.mem_descriptors_of_readByRows hmem)) (hfull _ hmem) hload hshape
  exact {
    attentionNorm := hplain (by simp [LlamaLayerTensors.readByRows]) hsteps.attentionNorm
      hshaped.attentionNorm
    attentionQ := hvalues (by simp [LlamaLayerTensors.readByRows]) hsteps.attentionQ
      hshaped.attentionQ
    attentionK := hvalues (by simp [LlamaLayerTensors.readByRows]) hsteps.attentionK
      hshaped.attentionK
    attentionV := hvalues (by simp [LlamaLayerTensors.readByRows]) hsteps.attentionV
      hshaped.attentionV
    qkNorms := by
      rcases hshaped.qkNorms with hnone | ⟨q, k, hq, hk, hqDims, hkDims⟩
      · exact .inl hnone
      · have hqLoad := hsteps.attentionQNorm
        have hkLoad := hsteps.attentionKNorm
        rw [hq] at hqLoad
        rw [hk] at hkLoad
        obtain ⟨qDesc, hqDesc, hqLoad⟩ := TensorStore.loadOptional_eq_some hqLoad
        obtain ⟨kDesc, hkDesc, hkLoad⟩ := TensorStore.loadOptional_eq_some hkLoad
        exact .inr ⟨q, k, hq, hk,
          hplain (by simp [LlamaLayerTensors.readByRows, hqDesc]) hqLoad hqDims,
          hplain (by simp [LlamaLayerTensors.readByRows, hkDesc]) hkLoad hkDims⟩
    ffnNorm := hplain (by simp [LlamaLayerTensors.readByRows]) hsteps.ffnNorm hshaped.ffnNorm }

end Loaded

-- ---------------------------------------------------------------------------
-- Sizes in the metadata
-- ---------------------------------------------------------------------------

theorem Gguf.GgufFile.metadataU32_lt {file : GgufFile} {key : String} {n : Nat}
    (h : file.metadataU32 key = some n) : n < 2 ^ 32 := by
  unfold metadataU32 at h
  split at h
  · rename_i value _
    obtain rfl := Option.some.inj h
    exact value.toNat_lt
  · split at h
    · rename_i hlt
      obtain rfl := Option.some.inj h
      exact hlt
    · exact absurd h (by simp)
  · exact absurd h (by simp)

theorem inferVocabSizeFromTokenEmbedding_lt {file : GgufFile} {tensorName : String}
    {embeddingLength vocab : Nat}
    (h : inferVocabSizeFromTokenEmbedding file tensorName embeddingLength = some vocab) :
    vocab < 2 ^ 32 := by
  have hfits : ∀ inferred : UInt64,
      (if inferred.toNat < 2 ^ 32 then some inferred.toNat else none) = some vocab →
      vocab < 2 ^ 32 := by
    intro inferred hinferred
    split at hinferred
    · rename_i hlt
      obtain rfl := Option.some.inj hinferred
      exact hlt
    · exact absurd hinferred (by simp)
  unfold inferVocabSizeFromTokenEmbedding at h
  obtain ⟨tensor, -, h⟩ := Option.bind_eq_some_iff.mp h
  dsimp only at h
  split at h
  · split at h
    · exact hfits _ h
    · split at h
      · exact hfits _ h
      · exact absurd h (by simp)
  · exact absurd h (by simp)

/-- The sizes of a configuration are 32-bit numbers. -/
structure LlamaModelConfig.Narrow (config : LlamaModelConfig) : Prop where
  context : config.contextLength < 2 ^ 32
  embedding : config.embeddingLength < 2 ^ 32
  blocks : config.blockCount < 2 ^ 32
  feedForward : config.feedForwardLength < 2 ^ 32
  heads : config.attentionHeadCount < 2 ^ 32
  kvHeads : config.attentionHeadCountKv < 2 ^ 32
  headDim : config.headDim < 2 ^ 32
  vocab : ∀ vocab, config.vocabSize = some vocab → vocab < 2 ^ 32

theorem LlamaModelConfig.narrow_of_fromGguf {file : GgufFile} {config : LlamaModelConfig}
    (h : LlamaModelConfig.fromGguf file = .ok config) : config.Narrow := by
  obtain ⟨architecture, -, -, hcontext, hembedding, hblocks, hfeed, hheads, hconfig⟩ :=
    fromGguf_steps h
  have hembedding := GgufFile.metadataU32_lt hembedding
  have hheads := GgufFile.metadataU32_lt hheads
  refine ⟨GgufFile.metadataU32_lt hcontext, hembedding, GgufFile.metadataU32_lt hblocks,
    GgufFile.metadataU32_lt hfeed, hheads, ?_, ?_, ?_⟩
  · have hkv := congrArg LlamaModelConfig.attentionHeadCountKv hconfig
    dsimp only at hkv
    unfold llamaAttentionHeadCountKv at hkv
    rw [hkv]
    rcases hfound : file.metadataU32 (architectureKey architecture "attention.head_count_kv") with
      _ | n
    · exact hheads
    · exact GgufFile.metadataU32_lt hfound
  · have hkey := congrArg LlamaModelConfig.attentionKeyLength hconfig
    dsimp only at hkey
    have hdiv : config.embeddingLength / config.attentionHeadCount ≤ config.embeddingLength :=
      Nat.div_le_self _ _
    unfold headDim
    split
    · rename_i keyLength hlength
      have hlt := GgufFile.metadataU32_lt (hkey.symm.trans hlength)
      split <;> omega
    · omega
  · intro vocab hvocab
    have hsize := congrArg LlamaModelConfig.vocabSize hconfig
    dsimp only at hsize
    rw [hvocab] at hsize
    rcases hfound : file.metadataU32 (architectureKey architecture "vocab_size") with _ | n
    · rw [hfound, Option.none_or] at hsize
      exact inferVocabSizeFromTokenEmbedding_lt hsize.symm
    · rw [hfound, Option.some_or] at hsize
      obtain rfl := Option.some.inj hsize
      exact GgufFile.metadataU32_lt hfound

-- ---------------------------------------------------------------------------
-- The cache grows
-- ---------------------------------------------------------------------------

/-- The next position is refused, or there is room for it, or the cache can grow: the elements of
a position are counted in a word, and those of the grown buffers are not, which is an error, or
have no more bytes than a buffer can. -/
def LlamaKvCache.GrowthFits (kv : LlamaKvCache) : Prop :=
  kv.plan.maxSequenceLength ≤ kv.position ∨ kv.position < kv.allocatedSequenceLength ∨
    kv.stride < 2 ^ 64 ∧
      (2 ^ 64 ≤ kv.growthTarget (kv.position + 1) * kv.stride ∨
        4 * (kv.growthTarget (kv.position + 1) * kv.stride) ≤ isizeMax)

instance (kv : LlamaKvCache) : Decidable kv.GrowthFits :=
  inferInstanceAs (Decidable (_ ∨ _ ∨ _ ∧ (_ ∨ _)))

theorem LlamaKvCache.reserve_noFault_iff {kv : LlamaKvCache}
    (hrows : kv.plan.layerCount * kv.plan.kvHeadCount < 2 ^ 64)
    (hfree : kv.position < kv.plan.maxSequenceLength) :
    (kv.reserve (kv.position + 1)).NoFault ↔ kv.GrowthFits := by
  unfold GrowthFits reserve
  rw [if_neg (by omega)]
  by_cases hroom : kv.position < kv.allocatedSequenceLength
  · rw [if_pos (by omega)]
    simp [hroom]
  rw [if_neg (by omega)]
  have hstride : kv.plan.positionStride = plainMul (kv.plan.layerCount * kv.plan.kvHeadCount)
      kv.plan.headDim := by
    show (plainMul kv.plan.layerCount kv.plan.kvHeadCount >>= fun rows =>
      plainMul rows kv.plan.headDim) = _
    rw [plainMul_eq_ok.mpr ⟨rfl, hrows⟩, Outcome.ok_bind]
  rw [hstride]
  by_cases hword : kv.stride < 2 ^ 64
  · rw [plainMul_eq_ok.mpr ⟨rfl, hword⟩, Outcome.ok_bind]
    by_cases hcount : kv.growthTarget (kv.position + 1) * kv.stride < 2 ^ 64
    · rw [show checkedMul (kv.growthTarget (kv.position + 1))
          (kv.plan.layerCount * kv.plan.kvHeadCount * kv.plan.headDim) =
          some (kv.growthTarget (kv.position + 1) * kv.stride) from
        checkedMul_eq_some.mpr ⟨rfl, hcount⟩, Outcome.okOr_some, Outcome.ok_bind]
      by_cases hbytes : 4 * (kv.growthTarget (kv.position + 1) * kv.stride) > isizeMax
      · rw [if_pos hbytes]
        constructor
        · intro h
          exact absurd rfl (h .panic)
        · omega
      · rw [if_neg hbytes]
        simp only [Outcome.noFault_ok, true_iff]
        omega
    · rw [show checkedMul (kv.growthTarget (kv.position + 1))
          (kv.plan.layerCount * kv.plan.kvHeadCount * kv.plan.headDim) = none from if_neg hcount,
        Outcome.okOr_none]
      simp only [Outcome.err_bind, Outcome.noFault_err, true_iff]
      omega
  · rw [show plainMul (kv.plan.layerCount * kv.plan.kvHeadCount) kv.plan.headDim =
      .fault .overflow from if_neg hword, Outcome.fault_bind]
    constructor
    · intro h
      exact absurd rfl (h .overflow)
    · omega

-- ---------------------------------------------------------------------------
-- Runs
-- ---------------------------------------------------------------------------

section Runs

variable [FloatOps]

namespace DenseModel

variable {model : DenseModel} {kv : LlamaKvCache} {histories : List (List HeadRows)}

/-- The rows a cache represents are of every head. -/
theorem Represents.wide (h : model.Represents kv histories) :
    ∀ history ∈ histories, ∀ heads ∈ history, model.RowsWide heads := by
  intro history hhistory heads hheads
  obtain ⟨i, hi⟩ := List.mem_iff_getElem?.mp hhistory
  obtain ⟨p, hp⟩ := List.mem_iff_getElem?.mp hheads
  obtain ⟨hlen, hentry⟩ := (h.held i history hi).2 p heads hp
  have hcount : kv.plan.kvHeadCount = model.dims.attentionHeadCountKv := by rw [h.plan_eq]; rfl
  have hwidth : kv.plan.headDim = model.dims.headDim := by rw [h.plan_eq]; rfl
  refine ⟨hlen.trans hcount, fun row hrow => ?_⟩
  obtain ⟨head, hhead⟩ := List.mem_iff_getElem?.mp hrow
  have hlt := (List.getElem?_eq_some_iff.mp hhead).1
  have hsome := hentry head (by omega)
  rw [hhead] at hsome
  obtain ⟨hkey, hvalue⟩ := LlamaKvCache.entry_eq_some.mp hsome
  rw [← hwidth]
  exact ⟨Rows.length_of_slice (Outcome.orPanic_eq_ok.mp hkey),
    Rows.length_of_slice (Outcome.orPanic_eq_ok.mp hvalue)⟩

/-- Calls of `forward_token` on the cache of a new decoder, whatever they return. -/
def calls (model : DenseModel) :
    Machine LlamaKvCache ForwardCall (EngineResult (Option CpuTensor)) where
  start kv := model.newCache = .ok kv
  step kv call result kv' :=
    model.forwardPass.forwardToken call.token call.computeLogits kv = (result, kv')

/-- A run leaves the cache representing rows. -/
theorem represents_of_run {calls : List (Entry LlamaKvCache ForwardCall _)}
    (run : model.calls.Run calls kv) : ∃ histories, model.Represents kv histories := by
  induction run with
  | nil hnew => exact ⟨_, (newCache_fresh hnew).represents⟩
  | @snoc calls kv kv' call result run hstep ih =>
    obtain ⟨histories, hrep⟩ := ih
    obtain ⟨kv'', hrun, hdone, hfailed⟩ := forwardToken_run hrep call.token call.computeLogits
    obtain ⟨-, rfl⟩ := Prod.mk.inj (hrun.symm.trans hstep)
    rcases hturn : model.turn kv histories call.token call.computeLogits with out | e | k
    · exact ⟨_, (hdone out hturn).1⟩
    · exact ⟨_, (hfailed fun out h => by rw [hturn] at h; exact absurd h (by simp)).1⟩
    · exact ⟨_, (hfailed fun out h => by rw [hturn] at h; exact absurd h (by simp)).1⟩

/-- A call has a fault just where the growth of the cache has, or the token through the stack. -/
theorem forwardToken_ends (h : model.Represents kv histories) (hsound : model.Sound)
    {allowed : EngineError → Prop} (hfloat : allowed softmaxError) {token : TokenId}
    (hlate : ¬(token < model.dims.vocabSize ∧ model.Served) → ∀ e, allowed e)
    (hroom : (model.room kv).Ends allowed fun _ => True) (computeLogits : Bool) :
    (model.forwardPass.forwardToken token computeLogits kv).1.Ends allowed fun answer =>
      ∀ logits, answer = some logits → logits.Plain [1, model.dims.vocabSize] := by
  obtain ⟨kv', hrun, -, -⟩ := forwardToken_run h token computeLogits
  rw [hrun]
  have hturn : (model.turn kv histories token computeLogits).Ends allowed fun out =>
      ∀ logits, out.1 = some logits → logits.Plain [1, model.dims.vocabSize] :=
    hroom.bind fun _ _ => step_ends hsound hfloat hlate h.wide computeLogits
  rcases hout : model.turn kv histories token computeLogits with out | e | k
  · rw [hout] at hturn
    exact hturn
  · rw [hout] at hturn
    exact hturn
  · rw [hout] at hturn
    exact hturn

/-- The elements of a position of the cache. -/
def positionElements (model : DenseModel) : Nat :=
  model.dims.blockCount * model.dims.attentionHeadCountKv * model.dims.headDim

/-- The cache of a whole context has the room of a buffer. -/
def CacheFits (model : DenseModel) : Prop :=
  4 * (model.config.contextLength * model.positionElements) ≤ isizeMax

/-- A cache never grows beyond that of the context. -/
theorem growth_le_of_cacheFits (hplan : kv.plan = model.plan) (hfits : model.CacheFits) :
    4 * (kv.growthTarget (kv.position + 1) * kv.stride) ≤ isizeMax := by
  have hstride : kv.stride = model.positionElements := by
    unfold LlamaKvCache.stride
    rw [hplan]
    rfl
  have htarget : kv.growthTarget (kv.position + 1) ≤ model.config.contextLength := by
    unfold LlamaKvCache.growthTarget
    rw [hplan]
    exact min_le_right _ _
  rw [hstride]
  exact (Nat.mul_le_mul_left 4 (Nat.mul_le_mul_right _ htarget)).trans hfits

theorem growthFits_of_cacheFits (hplan : kv.plan = model.plan) (hfits : model.CacheFits) :
    kv.GrowthFits := by
  rcases Nat.lt_or_ge kv.position kv.plan.maxSequenceLength with hfree | hfull
  · have hbytes := growth_le_of_cacheFits hplan hfits
    have hpos : 0 < kv.growthTarget (kv.position + 1) := by
      unfold LlamaKvCache.growthTarget growChunk
      omega
    have hone := Nat.le_mul_of_pos_left kv.stride hpos
    refine .inr (.inr ⟨?_, .inr hbytes⟩)
    unfold isizeMax at hbytes
    omega
  · exact .inl hfull

/-- The room for a position is made, or refused, without a fault. -/
theorem room_noFault_iff (hnarrow : model.config.Narrow) (hplan : kv.plan = model.plan) :
    (model.room kv).NoFault ↔ kv.GrowthFits := by
  have hmax : kv.plan.maxSequenceLength = model.config.contextLength := by rw [hplan]; rfl
  have hrows : kv.plan.layerCount * kv.plan.kvHeadCount < 2 ^ 64 := by
    have hlayers : kv.plan.layerCount = model.dims.blockCount := by rw [hplan]; rfl
    have hheads : kv.plan.kvHeadCount = model.dims.attentionHeadCountKv := by rw [hplan]; rfl
    obtain ⟨-, vocab, -, hdims⟩ := DenseLlamaDims.fromConfig_eq_ok.mp model.dims_eq
    rw [hlayers, hheads, hdims]
    calc model.config.blockCount * model.config.attentionHeadCountKv < 2 ^ 32 * 2 ^ 32 :=
          Nat.mul_lt_mul'' hnarrow.blocks hnarrow.kvHeads
      _ = 2 ^ 64 := by norm_num
  unfold room
  by_cases hfree : kv.position < model.config.contextLength
  · rw [if_pos hfree]
    exact LlamaKvCache.reserve_noFault_iff hrows (by omega)
  · rw [if_neg hfree]
    unfold LlamaKvCache.GrowthFits
    simp only [Outcome.noFault_err, true_iff]
    omega

/-- On a cache that represents rows, a call has a fault just where the growth has. -/
theorem forwardToken_noFault_iff (h : model.Represents kv histories) (hsound : model.Sound)
    (hnarrow : model.config.Narrow) (token : TokenId) (computeLogits : Bool) :
    (model.forwardPass.forwardToken token computeLogits kv).1.NoFault ↔ kv.GrowthFits := by
  rw [← room_noFault_iff hnarrow h.plan_eq]
  constructor
  · intro hcall k hroom
    obtain ⟨kv', hrun, -, -⟩ := forwardToken_run h token computeLogits
    refine hcall k ?_
    rw [hrun]
    unfold turn
    rw [hroom]
    rfl
  · intro hroom
    have hends : (model.room kv).Ends (fun _ => True) fun _ => True :=
      Outcome.ends_iff.mpr ⟨hroom, fun _ _ => trivial, fun _ _ => trivial⟩
    exact (forwardToken_ends h hsound trivial (fun _ _ => trivial) hends computeLogits).noFault

end DenseModel

-- ---------------------------------------------------------------------------
-- Loaded models
-- ---------------------------------------------------------------------------

section Load

/-- What the last check of a load lets through. -/
theorem LoadedDense.fromComponents_eq_ok {config : LlamaModelConfig} {tokenizer : Tokenizer}
    {weights : LlamaWeights} {projection : Q8Projection} {loaded : LoadedDense}
    (h : LoadedDense.fromComponents config tokenizer weights projection = .ok loaded) :
    loaded.tokenizer = tokenizer ∧ loaded.dense.config = config ∧ loaded.dense.weights = weights ∧
      tokenizer.tokens.length = loaded.dense.dims.vocabSize := by
  unfold fromComponents at h
  split at h
  · split at h
    · exact absurd h (by simp)
    · rename_i hlength
      obtain rfl := Outcome.ok.inj h
      exact ⟨rfl, rfl, rfl, not_not.mp hlength⟩
  · exact absurd h (by simp)
  · exact absurd h (by simp)
  · exact absurd h (by simp)
  · exact absurd h (by simp)

theorem DenseModel.words_of_narrow {model : DenseModel} (h : model.config.Narrow) : model.Words := by
  obtain ⟨-, vocab, hvocab, hdims⟩ := DenseLlamaDims.fromConfig_eq_ok.mp model.dims_eq
  have hembedding := h.embedding
  have hfeed := h.feedForward
  have hheads := h.heads
  have hkvHeads := h.kvHeads
  have hsize := h.vocab vocab hvocab
  have hproduct : ∀ n : Nat, n < 2 ^ 32 → n * model.config.headDim < 2 ^ 64 := by
    intro n hn
    calc n * model.config.headDim < 2 ^ 32 * 2 ^ 32 := Nat.mul_lt_mul'' hn h.headDim
      _ = 2 ^ 64 := by norm_num
  have hq := hproduct _ hheads
  have hkv := hproduct _ hkvHeads
  refine ⟨?_, ?_, ?_, by omega, ?_, ?_, ?_, ?_⟩
  all_goals
    rw [hdims]
    dsimp only
    omega

omit [FloatOps] in
/-- Every descriptor of a binding is found under its name in the file. -/
theorem LlamaTensorBinding.found_of_bind {bytes : List UInt8} {declaredLen : UInt64}
    {gguf : GgufFile} (hparse : readMetadataWithLen bytes declaredLen = .ok gguf)
    {config : LlamaModelConfig} {binding : LlamaTensorBinding}
    (hbind : LlamaTensorBinding.bind gguf config = .ok binding) (path : String)
    (file : List UInt8) {desc : TensorDescriptor} (hdesc : desc ∈ binding.descriptors) :
    (TensorStore.ofHeader path file gguf).descriptor desc.name = .ok desc := by
  obtain ⟨headerLen, -, hlaid⟩ := wellLaidOut_of_ok hparse
  exact TensorStore.descriptor_of_mem path file hlaid.namesUnique (mem_of_bind hbind hdesc)

/-- A loaded model is read inside its buffers, where those that are read by rows were decoded
in full. -/
theorem DenseModel.sound_of_load {bytes : List UInt8} {declaredLen : UInt64} {gguf : GgufFile}
    (hparse : readMetadataWithLen bytes declaredLen = .ok gguf) {model : DenseModel}
    (hconfig : LlamaModelConfig.fromGguf gguf = .ok model.config) {binding : LlamaTensorBinding}
    (hbind : LlamaTensorBinding.bind gguf model.config = .ok binding) {path : String}
    {file : List UInt8}
    (hload : LlamaWeights.load (TensorStore.ofHeader path file gguf) binding = .ok model.weights)
    (hfull : ∀ desc ∈ binding.readByRows, desc.InFull) : model.Sound := by
  have hwell := TensorStore.ofHeader_wellSized hparse path file
  have hfound : ∀ desc ∈ binding.descriptors,
      (TensorStore.ofHeader path file gguf).descriptor desc.name = .ok desc := fun desc hdesc =>
    LlamaTensorBinding.found_of_bind hparse hbind path file hdesc
  obtain ⟨hembeddingDims, hnormDims, -, -, -, hshaped⟩ :=
    LlamaWeights.shaped_of_validate model.dims_eq model.shapes
  obtain ⟨-, -, -, -, -, -, -, hvalidated⟩ := LlamaTensorBinding.bind_steps hbind
  obtain ⟨hshape, -⟩ := LlamaTensorBinding.shaped_of_validate model.dims_eq hvalidated
  obtain ⟨stored, output, hstored, htable, hnorm, -, -, hrope, hlayers⟩ :=
    LlamaWeights.load_steps hload
  refine ⟨words_of_narrow (LlamaModelConfig.narrow_of_fromGguf hconfig), ?_, ?_, ?_, ?_⟩
  · have hdesc := hfound binding.tokenEmbedding (by simp [LlamaTensorBinding.descriptors])
    have horiented := TensorStore.loadLinear_oriented hdesc hstored hshape
    have hvalues := TensorStore.loadLinear_values hwell hdesc
      (hfull _ (by simp [LlamaTensorBinding.readByRows])) hstored horiented
    rw [normalizeTokenEmbeddingShape_eq_ok horiented htable]
    exact hvalues
  · exact TensorStore.loadCpuF32_plain hwell
      (hfound _ (by simp [LlamaTensorBinding.descriptors]))
      (hfull _ (by simp [LlamaTensorBinding.readByRows])) hnorm hnormDims
  · intro tensor htensor
    rw [htensor] at hrope
    obtain ⟨desc, hdesc, hropeLoad⟩ := TensorStore.loadOptional_eq_some hrope
    exact (TensorStore.loadCpuF32_plain hwell
      (hfound _ (by simp [LlamaTensorBinding.descriptors, hdesc]))
      (hfull _ (by simp [LlamaTensorBinding.readByRows, hdesc])) hropeLoad rfl).length_eq
  · intro layer hlayer
    obtain ⟨idx, hidx⟩ := List.mem_iff_getElem?.mp hlayer
    obtain ⟨bound, hbound, hlayerLoad⟩ := Outcome.getElem?_of_mapM hlayers hidx
    have hmem := List.mem_of_getElem? hbound
    refine LlamaLayerWeights.load_sound hwell ?_ ?_ hlayerLoad (hshaped layer hlayer)
    · intro desc hdesc
      exact hfound desc (List.mem_append_right _ (List.mem_flatMap.mpr ⟨bound, hmem, hdesc⟩))
    · intro desc hdesc
      exact hfull desc (List.mem_append_right _ (List.mem_flatMap.mpr ⟨bound, hmem, hdesc⟩))

/-- The steps of a load. -/
theorem LoadedDense.load_steps {path : String} {file : List UInt8}
    {projection : Q8Projection} {loaded : LoadedDense}
    (h : LoadedDense.load path file projection = .ok loaded) : ∃ gguf binding,
      readMetadataWithLen file (.ofNat file.length) = .ok gguf ∧
      LlamaModelConfig.fromGguf gguf = .ok loaded.dense.config ∧
      LlamaTensorBinding.bind gguf loaded.dense.config = .ok binding ∧
      LlamaWeights.load (TensorStore.ofHeader path file gguf) binding = .ok loaded.dense.weights ∧
      LoadedDense.fromComponents loaded.dense.config loaded.tokenizer loaded.dense.weights
        projection = .ok loaded := by
  obtain ⟨gguf, hparse, h⟩ := Outcome.bind_eq_ok.mp h
  obtain ⟨architecture, -, h⟩ := Outcome.bind_eq_ok.mp h
  obtain ⟨config, hconfig, h⟩ := Outcome.bind_eq_ok.mp h
  obtain ⟨tokenizer, -, h⟩ := Outcome.bind_eq_ok.mp h
  obtain ⟨-, h⟩ := Outcome.check_eq_ok.mp h
  obtain ⟨binding, hbind, h⟩ := Outcome.bind_eq_ok.mp h
  obtain ⟨weights, hweights, h⟩ := Outcome.bind_eq_ok.mp h
  obtain ⟨rfl, rfl, rfl, -⟩ := fromComponents_eq_ok h
  exact ⟨gguf, binding, hparse, hconfig, hbind, hweights, h⟩

/-- The tokenizer of a load is that of its header. -/
theorem LoadedDense.load_tokenizer {path : String} {file : List UInt8}
    {projection : Q8Projection} {loaded : LoadedDense}
    (h : LoadedDense.load path file projection = .ok loaded) :
    ∃ gguf, Tokenizer.fromGguf gguf = .ok loaded.tokenizer := by
  obtain ⟨gguf, -, h⟩ := Outcome.bind_eq_ok.mp h
  obtain ⟨architecture, -, h⟩ := Outcome.bind_eq_ok.mp h
  obtain ⟨config, -, h⟩ := Outcome.bind_eq_ok.mp h
  obtain ⟨tokenizer, htokenizer, h⟩ := Outcome.bind_eq_ok.mp h
  obtain ⟨-, h⟩ := Outcome.check_eq_ok.mp h
  obtain ⟨binding, -, h⟩ := Outcome.bind_eq_ok.mp h
  obtain ⟨weights, -, h⟩ := Outcome.bind_eq_ok.mp h
  obtain ⟨rfl, -⟩ := fromComponents_eq_ok h
  exact ⟨gguf, htokenizer⟩

/-- **No index out of range.** For a file that is accepted and whose tensors that are read by
rows were decoded in full, a call of `forward_token` from any state its runs come to returns,
whatever the token, just where the cache can grow for it. -/
theorem forwardToken_safe_iff {bytes : List UInt8} {declaredLen : UInt64} {gguf : GgufFile}
    (hparse : readMetadataWithLen bytes declaredLen = .ok gguf) {config : LlamaModelConfig}
    (hconfig : LlamaModelConfig.fromGguf gguf = .ok config) {binding : LlamaTensorBinding}
    (hbind : LlamaTensorBinding.bind gguf config = .ok binding) {path : String}
    {file : List UInt8} {weights : LlamaWeights}
    (hload : LlamaWeights.load (TensorStore.ofHeader path file gguf) binding = .ok weights)
    {tokenizer : Tokenizer} {projection : Q8Projection} {loaded : LoadedDense}
    (hloaded : LoadedDense.fromComponents config tokenizer weights projection = .ok loaded)
    (hfull : ∀ desc ∈ binding.readByRows, desc.InFull)
    {calls : List (Entry LlamaKvCache ForwardCall (EngineResult (Option CpuTensor)))}
    {kv : LlamaKvCache} (hrun : loaded.dense.calls.Run calls kv) (token : TokenId)
    (computeLogits : Bool) :
    (loaded.dense.forwardPass.forwardToken token computeLogits kv).1.NoFault ↔ kv.GrowthFits := by
  obtain ⟨-, rfl, rfl, -⟩ := LoadedDense.fromComponents_eq_ok hloaded
  obtain ⟨histories, hrep⟩ := DenseModel.represents_of_run hrun
  exact DenseModel.forwardToken_noFault_iff hrep
    (DenseModel.sound_of_load hparse hconfig hbind hload hfull)
    (LlamaModelConfig.narrow_of_fromGguf hconfig) token computeLogits

end Load

end Runs

-- ---------------------------------------------------------------------------
-- A model of one column
-- ---------------------------------------------------------------------------

/-- A header of one layer with one head of two columns, and of three tokens, with these
settings besides. -/
def unitDocument (settings : List Gguf.Entry) : Document where
  version := 3
  alignment := defaultAlignment
  metadata :=
    ([⟨"general.architecture".toList, .String "llama".toList, 0⟩,
      ⟨"tokenizer.ggml.model".toList, .String "llama".toList, 0⟩,
      ⟨"tokenizer.ggml.tokens".toList, .Array [.String ['a'], .String ['b'], .String ['c']], 8⟩] ++
    [("llama.context_length", 4), ("llama.embedding_length", 1), ("llama.block_count", 1),
      ("llama.feed_forward_length", 1), ("llama.attention.head_count", 1),
      ("llama.attention.key_length", 2)].map fun entry =>
        (⟨entry.1.toList, .U32 entry.2, 0⟩ : Gguf.Entry)) ++ settings
  tensors := [("token_embd.weight", [1, 3], 12), ("output_norm.weight", [1], 4),
    ("blk.0.attn_norm.weight", [1], 4), ("blk.0.ffn_norm.weight", [1], 4),
    ("blk.0.attn_q.weight", [1, 2], 8), ("blk.0.attn_k.weight", [1, 2], 8),
    ("blk.0.attn_v.weight", [1, 2], 8), ("blk.0.attn_output.weight", [2, 1], 8),
    ("blk.0.ffn_gate.weight", [1, 1], 4), ("blk.0.ffn_up.weight", [1, 1], 4),
    ("blk.0.ffn_down.weight", [1, 1], 4)].zipIdx.map fun tensor =>
      ⟨tensor.1.1.toList, tensor.1.2.1, .F32, .ofNat (32 * tensor.2), 0, tensor.1.2.2⟩

/-- Its file, of zeros. -/
def unitFileWith (settings : List Gguf.Entry) : List UInt8 :=
  let document := unitDocument settings
  document.bytes ++ List.replicate (document.dataStart - document.bytes.length + 324) 0

def unitFile : List UInt8 := unitFileWith []

/-- The sizes that are read from it. -/
def unitConfig : LlamaModelConfig where
  contextLength := 4
  embeddingLength := 1
  blockCount := 1
  feedForwardLength := 1
  attentionHeadCount := 1
  attentionHeadCountKv := 1
  ropeDimensionCount := none
  ropeFreqBase := none
  ropeScalingType := none
  ropeScalingFactor := none
  ropeScalingOriginalContextLength := none
  ropeScalingLowFreqFactor := none
  ropeScalingHighFreqFactor := none
  rmsNormEpsilon := defaultRmsNormEpsilon
  vocabSize := some 3
  fileType := none
  attentionKeyLength := some 2
  ropeNeoxPairing := false

section Samples

variable [FloatOps]

/-- The binding of a file and the loaded model. -/
def loadBound (file : List UInt8) : EngineResult (LlamaTensorBinding × LoadedDense) := do
  let gguf ← readMetadataWithLen file (.ofNat file.length)
  let config ← LlamaModelConfig.fromGguf gguf
  let binding ← LlamaTensorBinding.bind gguf config
  let loaded ← LoadedDense.load "model.gguf" file .portable
  .ok (binding, loaded)

/-- A file that is accepted, with these sizes and tensors of single floats alone. -/
def UnitLike (file : List UInt8) : Prop :=
  (loadBound file).map (fun loaded =>
    (decide (loaded.2.dense.config = unitConfig), loaded.2.tokenizer.tokens.length,
      loaded.1.descriptors.all fun desc => decide (desc.tensorType = .F32))) = .ok (true, 3, true)

theorem UnitLike.loads {file : List UInt8} (h : UnitLike file) : ∃ gguf binding loaded,
    readMetadataWithLen file (.ofNat file.length) = .ok gguf ∧
    LlamaTensorBinding.bind gguf loaded.dense.config = .ok binding ∧
    LoadedDense.load "model.gguf" file .portable = .ok loaded ∧
    loaded.dense.config = unitConfig ∧ loaded.tokenizer.tokens.length = 3 ∧
    ∀ desc ∈ binding.descriptors, desc.tensorType = .F32 := by
  obtain ⟨⟨binding, loaded⟩, hunit, hvalues⟩ := Outcome.map_eq_ok.mp h
  obtain ⟨hconfig, hvalues⟩ := Prod.mk.inj hvalues
  obtain ⟨htokens, htypes⟩ := Prod.mk.inj hvalues
  have hconfig := of_decide_eq_true hconfig
  obtain ⟨gguf, hparse, hunit⟩ := Outcome.bind_eq_ok.mp hunit
  obtain ⟨config, hread, hunit⟩ := Outcome.bind_eq_ok.mp hunit
  obtain ⟨binding', hbind, hunit⟩ := Outcome.bind_eq_ok.mp hunit
  obtain ⟨loaded', hload, hunit⟩ := Outcome.bind_eq_ok.mp hunit
  obtain ⟨rfl, rfl⟩ := Prod.mk.inj (Outcome.ok.inj hunit)
  have hsame : config = loaded'.dense.config := by
    obtain ⟨gguf', -, hparse', hread', -⟩ := LoadedDense.load_steps hload
    obtain rfl := Outcome.ok.inj (hparse.symm.trans hparse')
    exact Outcome.ok.inj (hread.symm.trans hread')
  rw [hsame] at hbind
  refine ⟨gguf, binding', loaded', hparse, hbind, hload, hconfig, htokens, fun desc hdesc => ?_⟩
  exact of_decide_eq_true (List.all_eq_true.mp htypes desc hdesc)

end Samples

section Samples

attribute [local instance] residueOps

theorem unitFile_unitLike : UnitLike unitFile := by
  unfold UnitLike
  decide +kernel

/-- Whatever was called before, a decoder of the file takes every further token. -/
theorem forwardToken_safe_unit : ∃ loaded kv,
    LoadedDense.load "model.gguf" unitFile .portable = .ok loaded ∧
    loaded.dense.newCache = .ok kv ∧
    ∀ calls kv', loaded.dense.calls.Run calls kv' → ∀ token computeLogits,
      (loaded.dense.forwardPass.forwardToken token computeLogits kv').1.NoFault := by
  obtain ⟨gguf, binding, loaded, hparse, hbind, hload, hconfig, -, htypes⟩ :=
    unitFile_unitLike.loads
  obtain ⟨gguf', binding', hparse', hread, hbind', hweights, hloaded⟩ :=
    LoadedDense.load_steps hload
  obtain rfl := Outcome.ok.inj (hparse.symm.trans hparse')
  obtain rfl := Outcome.ok.inj (hbind.symm.trans hbind')
  obtain ⟨hdense, vocab, hvocab, hdims⟩ := DenseLlamaDims.fromConfig_eq_ok.mp loaded.dense.dims_eq
  rw [hconfig] at hdims
  have hfits : loaded.dense.CacheFits := by
    unfold DenseModel.CacheFits DenseModel.positionElements
    rw [hconfig, hdims]
    show 4 * (4 * (1 * 1 * 2)) ≤ isizeMax
    decide
  have hcache : ∃ kv, loaded.dense.newCache = .ok kv := by
    unfold DenseModel.newCache
    rw [hconfig]
    exact ⟨_, rfl⟩
  obtain ⟨kv, hnew⟩ := hcache
  refine ⟨loaded, kv, hload, hnew, fun calls kv' hrun token computeLogits => ?_⟩
  obtain ⟨histories, hrep⟩ := DenseModel.represents_of_run hrun
  refine (forwardToken_safe_iff hparse hread hbind hweights hloaded (fun desc hdesc => .inl ?_)
    hrun token computeLogits).mpr (DenseModel.growthFits_of_cacheFits hrep.plan_eq hfits)
  rw [htypes desc (LlamaTensorBinding.mem_descriptors_of_readByRows hdesc)]
  simp

end Samples

end CamelidEnterprise

import CamelidEnterprise.Foundation.Text
import CamelidEnterprise.Engine.Gguf

/-!
# Camelid Enterprise — the model configuration

`crates/engine-core/src/model/config.rs`: the scalars of a dense decoder, read
from the `<arch>.*` metadata of a GGUF header, and the integer dimensions derived
from them. A `u32` field is the natural number it holds; an `f32` field is the
bits of its float.

Key results: `fromGguf_steps` takes a successful reading apart, and
`DenseLlamaDims.fromConfig_eq_ok` says which dimensions are derived and from what.
-/

namespace CamelidEnterprise

open Foundation Foundation.Text

/-- The flat configuration the forward pass reads. -/
structure LlamaModelConfig where
  contextLength : Nat
  embeddingLength : Nat
  blockCount : Nat
  feedForwardLength : Nat
  attentionHeadCount : Nat
  attentionHeadCountKv : Nat
  ropeDimensionCount : Option Nat
  ropeFreqBase : Option UInt32
  ropeScalingType : Option Str
  ropeScalingFactor : Option UInt32
  ropeScalingOriginalContextLength : Option Nat
  ropeScalingLowFreqFactor : Option UInt32
  ropeScalingHighFreqFactor : Option UInt32
  rmsNormEpsilon : UInt32
  vocabSize : Option Nat
  fileType : Option Nat
  attentionKeyLength : Option Nat
  ropeNeoxPairing : Bool
deriving DecidableEq

-- ---------------------------------------------------------------------------
-- Reading it
-- ---------------------------------------------------------------------------

/-- `is_implemented_architecture` -/
def isImplementedArchitecture (architecture : Str) : Bool :=
  architecture ∈ ["llama".toList, "mistral".toList, "qwen2".toList, "qwen3".toList]

/-- `arch_uses_neox_rope_pairing` -/
def archUsesNeoxRopePairing (architecture : Str) : Bool :=
  architecture ∈ ["qwen3".toList, "qwen35".toList, "phi3".toList]

/-- `architecture_key` -/
def architectureKey (architecture : Str) (suffix : String) : String :=
  s!"{display architecture}.{suffix}"

/-- `required_u32` -/
def requiredU32 (file : Gguf.GgufFile) (key : String) : EngineResult Nat :=
  Outcome.okOr (.InvalidModelMetadata s!"required metadata {key} is missing or not u32")
    (file.metadataU32 key)

/-- `llama_attention_head_count_kv` -/
def llamaAttentionHeadCountKv (file : Gguf.GgufFile) (architecture : Str)
    (attentionHeadCount : Nat) : Nat :=
  (file.metadataU32 (architectureKey architecture "attention.head_count_kv")).getD
    attentionHeadCount

/-- `infer_vocab_size_from_token_embedding` -/
def inferVocabSizeFromTokenEmbedding (file : Gguf.GgufFile) (tensorName : String)
    (embeddingLength : Nat) : Option Nat := do
  let tensor ← file.tensors.find? fun t => t.name == tensorName.toList
  let inferred ← match tensor.dimensions with
    | [d0, d1] =>
      if d0.toNat = embeddingLength then some d1
      else if d1.toNat = embeddingLength then some d0
      else none
    | _ => none
  if inferred.toNat < 2 ^ 32 then some inferred.toNat else none

/-- The architecture, when the dense spine implements it. -/
def implementedArchitecture (file : Gguf.GgufFile) : EngineResult Str :=
  match file.architecture with
  | some architecture =>
    if isImplementedArchitecture architecture then .ok architecture
    -- block-diffusion spellings have no autoregressive decode loop
    else if contains "diffusion".toList (architecture.map Char.toLower) then
      .err (.UnsupportedModelArchitecture
        s!"{display architecture}: block-diffusion architecture is not an autoregressive decoder")
    else .err (.UnsupportedModelArchitecture (display architecture))
  | none =>
    .err (.InvalidModelMetadata "required metadata general.architecture is missing")

/-- `1e-5` -/
def defaultRmsNormEpsilon : UInt32 := 0x3727c5ac

/-- `LlamaModelConfig::from_gguf` -/
def LlamaModelConfig.fromGguf (file : Gguf.GgufFile) : EngineResult LlamaModelConfig := do
  let architecture ← implementedArchitecture file
  let key := architectureKey architecture
  let attentionHeadCount ← requiredU32 file (key "attention.head_count")
  let contextLength ← requiredU32 file (key "context_length")
  let embeddingLength ← requiredU32 file (key "embedding_length")
  let blockCount ← requiredU32 file (key "block_count")
  let feedForwardLength ← requiredU32 file (key "feed_forward_length")
  .ok
    { contextLength
      embeddingLength
      blockCount
      feedForwardLength
      attentionHeadCount
      attentionHeadCountKv := llamaAttentionHeadCountKv file architecture attentionHeadCount
      ropeDimensionCount := file.metadataU32 (key "rope.dimension_count")
      ropeFreqBase := file.metadataF32 (key "rope.freq_base")
      ropeScalingType := file.metadataString (key "rope.scaling.type")
      ropeScalingFactor := file.metadataF32 (key "rope.scaling.factor")
      ropeScalingOriginalContextLength :=
        file.metadataU32 (key "rope.scaling.original_context_length")
      ropeScalingLowFreqFactor := file.metadataF32 (key "rope.scaling.low_freq_factor")
      ropeScalingHighFreqFactor := file.metadataF32 (key "rope.scaling.high_freq_factor")
      rmsNormEpsilon :=
        (file.metadataF32 (key "attention.layer_norm_rms_epsilon")).getD defaultRmsNormEpsilon
      -- the embedding length is read once more here, and by now is there
      vocabSize := (file.metadataU32 (key "vocab_size")).or
        (inferVocabSizeFromTokenEmbedding file "token_embd.weight" embeddingLength)
      fileType := file.metadataU32 "general.file_type"
      attentionKeyLength := file.metadataU32 (key "attention.key_length")
      ropeNeoxPairing := archUsesNeoxRopePairing architecture }

theorem requiredU32_eq_ok {file : Gguf.GgufFile} {key : String} {value : Nat} :
    requiredU32 file key = .ok value ↔ file.metadataU32 key = some value :=
  Outcome.okOr_eq_ok

/-- The steps of a reading that succeeded. -/
theorem LlamaModelConfig.fromGguf_steps {file : Gguf.GgufFile} {config : LlamaModelConfig}
    (h : LlamaModelConfig.fromGguf file = .ok config) :
    ∃ architecture, file.architecture = some architecture ∧
      isImplementedArchitecture architecture = true ∧
      file.metadataU32 (architectureKey architecture "context_length") =
        some config.contextLength ∧
      file.metadataU32 (architectureKey architecture "embedding_length") =
        some config.embeddingLength ∧
      file.metadataU32 (architectureKey architecture "block_count") = some config.blockCount ∧
      file.metadataU32 (architectureKey architecture "feed_forward_length") =
        some config.feedForwardLength ∧
      file.metadataU32 (architectureKey architecture "attention.head_count") =
        some config.attentionHeadCount ∧
      config =
        { config with
          attentionHeadCountKv :=
            llamaAttentionHeadCountKv file architecture config.attentionHeadCount
          ropeDimensionCount :=
            file.metadataU32 (architectureKey architecture "rope.dimension_count")
          ropeFreqBase := file.metadataF32 (architectureKey architecture "rope.freq_base")
          ropeScalingType :=
            file.metadataString (architectureKey architecture "rope.scaling.type")
          ropeScalingFactor :=
            file.metadataF32 (architectureKey architecture "rope.scaling.factor")
          ropeScalingOriginalContextLength :=
            file.metadataU32 (architectureKey architecture "rope.scaling.original_context_length")
          ropeScalingLowFreqFactor :=
            file.metadataF32 (architectureKey architecture "rope.scaling.low_freq_factor")
          ropeScalingHighFreqFactor :=
            file.metadataF32 (architectureKey architecture "rope.scaling.high_freq_factor")
          rmsNormEpsilon :=
            (file.metadataF32 (architectureKey architecture
              "attention.layer_norm_rms_epsilon")).getD defaultRmsNormEpsilon
          vocabSize := (file.metadataU32 (architectureKey architecture "vocab_size")).or
            (inferVocabSizeFromTokenEmbedding file "token_embd.weight" config.embeddingLength)
          fileType := file.metadataU32 "general.file_type"
          attentionKeyLength :=
            file.metadataU32 (architectureKey architecture "attention.key_length")
          ropeNeoxPairing := archUsesNeoxRopePairing architecture } := by
  -- the reads that can fail, in the source's order; the rest of the record is read off
  obtain ⟨architecture, harch, h⟩ := Outcome.bind_eq_ok.mp h
  obtain ⟨heads, hheads, h⟩ := Outcome.bind_eq_ok.mp h
  obtain ⟨context, hcontext, h⟩ := Outcome.bind_eq_ok.mp h
  obtain ⟨embedding, hembedding, h⟩ := Outcome.bind_eq_ok.mp h
  obtain ⟨blocks, hblocks, h⟩ := Outcome.bind_eq_ok.mp h
  obtain ⟨feed, hfeed, h⟩ := Outcome.bind_eq_ok.mp h
  obtain rfl := Outcome.ok.inj h
  unfold implementedArchitecture at harch
  split at harch
  · rename_i name hname
    split at harch
    · rename_i himplemented
      obtain rfl := Outcome.ok.inj harch
      exact ⟨name, hname, himplemented, requiredU32_eq_ok.mp hcontext,
        requiredU32_eq_ok.mp hembedding, requiredU32_eq_ok.mp hblocks, requiredU32_eq_ok.mp hfeed,
        requiredU32_eq_ok.mp hheads, rfl⟩
    · split at harch
      · exact absurd harch (by simp)
      · exact absurd harch (by simp)
  · exact absurd harch (by simp)

-- ---------------------------------------------------------------------------
-- The dimensions derived from it
-- ---------------------------------------------------------------------------

/-- The integer geometry of a dense decoder. -/
structure DenseLlamaDims where
  embeddingLength : Nat
  blockCount : Nat
  feedForwardLength : Nat
  attentionHeadCountKv : Nat
  headDim : Nat
  qWidth : Nat
  kvWidth : Nat
  vocabSize : Nat
deriving DecidableEq, Repr

/-- The per-head width: as declared, else the embedding shared out. -/
def LlamaModelConfig.headDim (config : LlamaModelConfig) : Nat :=
  match config.attentionKeyLength with
  | some keyLength =>
    if keyLength > 0 then keyLength else config.embeddingLength / config.attentionHeadCount
  | none => config.embeddingLength / config.attentionHeadCount

/-- `DenseLlamaDims::from_config` -/
def DenseLlamaDims.fromConfig (config : LlamaModelConfig) : EngineResult DenseLlamaDims :=
  if config.attentionHeadCount = 0 ∨ config.embeddingLength % config.attentionHeadCount ≠ 0 then
    .err (.InvalidModelMetadata
      s!"embedding length {config.embeddingLength} is not divisible by attention head count {config.attentionHeadCount}")
  else if config.attentionHeadCountKv = 0 then
    .err (.InvalidModelMetadata "attention kv head count must be greater than zero")
  else if config.attentionHeadCount % config.attentionHeadCountKv ≠ 0 then
    .err (.InvalidModelMetadata
      s!"attention head count {config.attentionHeadCount} must be a multiple of kv head count {config.attentionHeadCountKv}")
  else do
    let vocabSize ← Outcome.okOr
      (.InvalidModelMetadata
        "required vocabulary size is missing for dense tensor validation") config.vocabSize
    if vocabSize = 0 then
      .err (.InvalidModelMetadata "vocabulary size must be greater than zero")
    else
      .ok
        { embeddingLength := config.embeddingLength
          blockCount := config.blockCount
          feedForwardLength := config.feedForwardLength
          attentionHeadCountKv := config.attentionHeadCountKv
          headDim := config.headDim
          qWidth := config.attentionHeadCount * config.headDim
          kvWidth := config.attentionHeadCountKv * config.headDim
          vocabSize }

/-- What a configuration must satisfy for dimensions to be derived from it. -/
structure LlamaModelConfig.Dense (config : LlamaModelConfig) : Prop where
  heads_pos : 0 < config.attentionHeadCount
  heads_dvd : config.attentionHeadCount ∣ config.embeddingLength
  kv_pos : 0 < config.attentionHeadCountKv
  kv_dvd : config.attentionHeadCountKv ∣ config.attentionHeadCount
  vocab_pos : ∃ vocab, config.vocabSize = some vocab ∧ 0 < vocab

theorem DenseLlamaDims.fromConfig_eq_ok {config : LlamaModelConfig} {dims : DenseLlamaDims} :
    DenseLlamaDims.fromConfig config = .ok dims ↔
      config.Dense ∧ ∃ vocab, config.vocabSize = some vocab ∧
        dims = ⟨config.embeddingLength, config.blockCount, config.feedForwardLength,
          config.attentionHeadCountKv, config.headDim,
          config.attentionHeadCount * config.headDim,
          config.attentionHeadCountKv * config.headDim, vocab⟩ := by
  unfold fromConfig
  constructor
  · intro h
    split at h
    · exact absurd h (by simp)
    rename_i hheads
    split at h
    · exact absurd h (by simp)
    rename_i hkv
    split at h
    · exact absurd h (by simp)
    rename_i hdvd
    obtain ⟨vocab, hvocab, h⟩ := Outcome.bind_eq_ok.mp h
    have hvocab := Outcome.okOr_eq_ok.mp hvocab
    split at h
    · exact absurd h (by simp)
    rename_i hpos
    have hheads : config.attentionHeadCount ≠ 0 ∧
        config.embeddingLength % config.attentionHeadCount = 0 := by
      by_contra hcon
      exact hheads (by tauto)
    refine ⟨⟨by omega, Nat.dvd_of_mod_eq_zero hheads.2, by omega,
      Nat.dvd_of_mod_eq_zero (by omega), vocab, hvocab, by omega⟩, vocab, hvocab, ?_⟩
    exact (Outcome.ok.inj h).symm
  · rintro ⟨hdense, vocab, hvocab, rfl⟩
    obtain ⟨vocab', hvocab', hpos⟩ := hdense.vocab_pos
    obtain rfl : vocab = vocab' := Option.some.inj (hvocab.symm.trans hvocab')
    have hheads := hdense.heads_pos
    have hkv := hdense.kv_pos
    have hmod := Nat.mod_eq_zero_of_dvd hdense.heads_dvd
    have hmod' := Nat.mod_eq_zero_of_dvd hdense.kv_dvd
    rw [if_neg (by omega), if_neg (by omega), if_neg (by omega), hvocab, Outcome.okOr_some,
      Outcome.ok_bind, if_neg (by omega)]

end CamelidEnterprise

import CamelidEnterprise.Engine.ModelConfig
import CamelidEnterprise.Engine.Tokenizer

/-!
# Camelid Enterprise — declared metadata and the defaults beside it

Which metadata keys `Tokenizer::from_gguf` and `LlamaModelConfig::from_gguf` read
for a number, what a value under such a key declares, and what is used when the
accessor of the key returns nothing. The accessors narrow: `metadata_u32` takes
two of the dozen value types and `metadata_f32` two others, and a value of any
further type is treated as if its key were absent.

Key results: `u32Reads_field` and `f32Reads_field` say that every field is what
its accessor read, else its fallback; `fromGguf_declared_iff` says for which files
no declared value is lost that way.
-/

namespace CamelidEnterprise

open Foundation Gguf

-- ---------------------------------------------------------------------------
-- What a value declares
-- ---------------------------------------------------------------------------

/-- A number, when a `u32` can hold it. -/
def asU32 (value : Int) : Option Nat :=
  if 0 ≤ value ∧ value < 2 ^ 32 then some value.toNat else none

/-- What a value declares for a `u32` field, whatever numeric type carries it. -/
def Gguf.MetadataValue.declaredU32 : MetadataValue → Option Nat
  | .U8 value => asU32 value.toNat
  | .I8 value => asU32 value.toInt
  | .U16 value => asU32 value.toNat
  | .I16 value => asU32 value.toInt
  | .U32 value => asU32 value.toNat
  | .I32 value => asU32 value.toInt
  | .U64 value => asU32 value.toNat
  | .I64 value => asU32 value.toInt
  | .F32 bits => (Format.single.toNat? bits.toNat).bind fun n => asU32 n
  | .F64 bits => (Format.double.toNat? bits.toNat).bind fun n => asU32 n
  | .Bool _ | .String _ | .Array _ => none

/-- What a value declares for an `f32` field: the number, rounded to single
precision. -/
def Gguf.MetadataValue.declaredF32 : MetadataValue → Option UInt32
  | .U8 value => some (.ofNat (Format.single.ofInt value.toNat))
  | .I8 value => some (.ofNat (Format.single.ofInt value.toInt))
  | .U16 value => some (.ofNat (Format.single.ofInt value.toNat))
  | .I16 value => some (.ofNat (Format.single.ofInt value.toInt))
  | .U32 value => some (.ofNat (Format.single.ofInt value.toNat))
  | .I32 value => some (.ofNat (Format.single.ofInt value.toInt))
  | .U64 value => some (.ofNat (Format.single.ofInt value.toNat))
  | .I64 value => some (.ofNat (Format.single.ofInt value.toInt))
  | .F32 bits => some bits
  | .F64 bits => some (.ofNat (Format.double.convert .single bits.toNat))
  | .Bool _ | .String _ | .Array _ => none

/-- A value that `metadata_u32` reads, it reads as declared. -/
theorem metadataU32_declared {file : GgufFile} {key : String} {n : Nat}
    (h : file.metadataU32 key = some n) :
    ∃ value, file.metadata.lookup key.toList = some value ∧ value.declaredU32 = some n := by
  unfold GgufFile.metadataU32 at h
  split at h
  · rename_i word hlookup
    have hlt := word.toNat_lt
    refine ⟨_, hlookup, ?_⟩
    show asU32 word.toNat = some n
    rw [asU32, if_pos (by omega), Int.toNat_natCast, h]
  · rename_i word hlookup
    split at h
    · rename_i hlt
      refine ⟨_, hlookup, ?_⟩
      show asU32 word.toNat = some n
      rw [asU32, if_pos (by omega), Int.toNat_natCast, h]
    · exact absurd h (by simp)
  · exact absurd h (by simp)

/-- A value that `metadata_f32` reads, it reads as declared. -/
theorem metadataF32_declared {file : GgufFile} {key : String} {bits : UInt32}
    (h : file.metadataF32 key = some bits) :
    ∃ value, file.metadata.lookup key.toList = some value ∧ value.declaredF32 = some bits := by
  unfold GgufFile.metadataF32 at h
  split at h
  · rename_i word hlookup
    exact ⟨_, hlookup, h⟩
  · rename_i word hlookup
    exact ⟨_, hlookup, h⟩
  · exact absurd h (by simp)

-- ---------------------------------------------------------------------------
-- The keys that are read
-- ---------------------------------------------------------------------------

/-- One read of a numeric key: the field it fills, and what the field is when the
accessor returns nothing. -/
structure Read (α : Type) where
  key : String
  field : Tokenizer → LlamaModelConfig → Option α
  fallback : Option α

/-- The field holds what the file declares under the key. -/
def Read.Kept {α : Type} (r : Read α) (declared : MetadataValue → Option α) (file : GgufFile)
    (tokenizer : Tokenizer) (config : LlamaModelConfig) : Prop :=
  ∀ value, file.metadata.lookup r.key.toList = some value →
    ∃ d, declared value = some d ∧ r.field tokenizer config = some d

/-- A value under the key has a type the accessor takes, or declares no more than
the fallback. -/
def Read.Readable {α : Type} (r : Read α) (declared : MetadataValue → Option α)
    (accessor : String → Option α) (file : GgufFile) : Prop :=
  ∀ value, file.metadata.lookup r.key.toList = some value →
    accessor r.key ≠ none ∨ ∃ d, declared value = some d ∧ r.fallback = some d

theorem Read.kept_iff {α : Type} {r : Read α} {declared : MetadataValue → Option α}
    {accessor : String → Option α} {file : GgufFile} {tokenizer : Tokenizer}
    {config : LlamaModelConfig}
    (haccessor : ∀ d, accessor r.key = some d →
      ∃ value, file.metadata.lookup r.key.toList = some value ∧ declared value = some d)
    (hfield : r.field tokenizer config = (accessor r.key).or r.fallback) :
    r.Kept declared file tokenizer config ↔ r.Readable declared accessor file := by
  constructor
  · intro h value hvalue
    obtain ⟨d, hd, hread⟩ := h value hvalue
    rcases haccess : accessor r.key with _ | d'
    · rw [hfield, haccess, Option.none_or] at hread
      exact Or.inr ⟨d, hd, hread⟩
    · exact Or.inl (by simp)
  · intro h value hvalue
    rcases haccess : accessor r.key with _ | d'
    · rcases h value hvalue with hsome | ⟨d, hd, hfallback⟩
      · exact absurd haccess hsome
      · exact ⟨d, hd, by rw [hfield, haccess, Option.none_or, hfallback]⟩
    · obtain ⟨value', hvalue', hd⟩ := haccessor d' haccess
      obtain rfl := Option.some.inj (hvalue.symm.trans hvalue')
      exact ⟨d', hd, by rw [hfield, haccess, Option.some_or]⟩

/-- The texts of `tokenizer.ggml.tokens`. -/
def Gguf.GgufFile.tokenTexts (file : GgufFile) : List Str :=
  match file.metadataArrayStrings "tokenizer.ggml.tokens" with
  | .ok texts => texts
  | _ => []

/-- The last place of a text in a list. -/
def lastIndexOf (text : Str) : List Str → Option Nat
  | [] => none
  | t :: texts => ((lastIndexOf text texts).map (· + 1)).or (if t = text then some 0 else none)

/-- The id of the last token with this text. -/
def Gguf.GgufFile.lastToken (file : GgufFile) (text : String) : Option Nat :=
  lastIndexOf text.toList file.tokenTexts

/-- `tokenizer.ggml.model` names the GPT-2/BPE family. -/
def Gguf.GgufFile.isGpt2 (file : GgufFile) : Bool :=
  file.metadataString "tokenizer.ggml.model" == some "gpt2".toList

/-- The special ids `Tokenizer::from_gguf` reads. -/
def tokenIdReads (file : GgufFile) : List (Read Nat) :=
  [⟨"tokenizer.ggml.bos_token_id", fun t _ => t.special.bos,
      if file.isGpt2 then file.lastToken "<|begin_of_text|>" else some 1⟩,
    ⟨"tokenizer.ggml.eos_token_id", fun t _ => t.special.eos,
      if file.isGpt2 then file.lastToken "<|end_of_text|>" else some 2⟩,
    ⟨"tokenizer.ggml.unknown_token_id", fun t _ => t.special.unk,
      if file.isGpt2 then none else some 0⟩,
    ⟨"tokenizer.ggml.eot_token_id", fun t _ => t.special.eot, file.lastToken "<|eot_id|>"⟩,
    ⟨"tokenizer.ggml.eom_token_id", fun t _ => t.special.eom, none⟩,
    ⟨"tokenizer.ggml.separator_token_id", fun t _ => t.special.sep,
      file.metadataU32 "tokenizer.ggml.seperator_token_id"⟩,
    ⟨"tokenizer.ggml.padding_token_id", fun t _ => t.special.pad, none⟩,
    ⟨"tokenizer.ggml.mask_token_id", fun t _ => t.special.mask, none⟩] ++
  -- the misspelled key is read only when the other gave nothing
  if file.metadataU32 "tokenizer.ggml.separator_token_id" = none then
    [⟨"tokenizer.ggml.seperator_token_id", fun t _ => t.special.sep, none⟩]
  else []

/-- A key of the file's architecture. -/
def Gguf.GgufFile.archKey (file : GgufFile) (suffix : String) : String :=
  architectureKey (file.architecture.getD []) suffix

/-- The integers `LlamaModelConfig::from_gguf` reads. -/
def configReads (file : GgufFile) : List (Read Nat) :=
  [⟨file.archKey "attention.head_count", fun _ c => some c.attentionHeadCount, none⟩,
    ⟨file.archKey "attention.head_count_kv", fun _ c => some c.attentionHeadCountKv,
      file.metadataU32 (file.archKey "attention.head_count")⟩,
    ⟨file.archKey "context_length", fun _ c => some c.contextLength, none⟩,
    ⟨file.archKey "embedding_length", fun _ c => some c.embeddingLength, none⟩,
    ⟨file.archKey "block_count", fun _ c => some c.blockCount, none⟩,
    ⟨file.archKey "feed_forward_length", fun _ c => some c.feedForwardLength, none⟩,
    ⟨file.archKey "rope.dimension_count", fun _ c => c.ropeDimensionCount, none⟩,
    ⟨file.archKey "rope.scaling.original_context_length",
      fun _ c => c.ropeScalingOriginalContextLength, none⟩,
    ⟨file.archKey "vocab_size", fun _ c => c.vocabSize,
      (file.metadataU32 (file.archKey "embedding_length")).bind
        (inferVocabSizeFromTokenEmbedding file "token_embd.weight")⟩,
    ⟨file.archKey "attention.key_length", fun _ c => c.attentionKeyLength, none⟩]

/-- Every integer the two functions read. -/
def u32Reads (file : GgufFile) : List (Read Nat) := tokenIdReads file ++ configReads file

/-- Every float they read. -/
def f32Reads (file : GgufFile) : List (Read UInt32) :=
  [⟨file.archKey "rope.freq_base", fun _ c => c.ropeFreqBase, none⟩,
    ⟨file.archKey "rope.scaling.factor", fun _ c => c.ropeScalingFactor, none⟩,
    ⟨file.archKey "rope.scaling.low_freq_factor", fun _ c => c.ropeScalingLowFreqFactor, none⟩,
    ⟨file.archKey "rope.scaling.high_freq_factor", fun _ c => c.ropeScalingHighFreqFactor, none⟩,
    ⟨file.archKey "attention.layer_norm_rms_epsilon", fun _ c => some c.rmsNormEpsilon,
      some defaultRmsNormEpsilon⟩]

-- ---------------------------------------------------------------------------
-- Every field is what its accessor read, else its fallback
-- ---------------------------------------------------------------------------

/-- The text index of a built vocabulary is the last place of each text. -/
theorem buildVocabulary_lookup {kindsRaw : List Int} {scores : List UInt32} {texts : List Str}
    {vocab result : Vocabulary} {text : Str}
    (h : buildVocabulary kindsRaw scores texts vocab = .ok result) :
    result.tokenToId.lookup text =
      ((lastIndexOf text texts).map (vocab.tokens.length + ·)).or (vocab.tokenToId.lookup text) := by
  induction texts generalizing vocab with
  | nil =>
    obtain rfl := Outcome.ok.inj h
    rfl
  | cons t texts ih =>
    obtain ⟨kindRaw, -, h⟩ := Outcome.bind_eq_ok.mp h
    obtain ⟨kind, -, h⟩ := Outcome.bind_eq_ok.mp h
    obtain ⟨score, -, h⟩ := Outcome.bind_eq_ok.mp h
    have hlength : (vocab.push t score kind).tokens.length = vocab.tokens.length + 1 := by
      simp [Vocabulary.push]
    have hpushed : (vocab.push t score kind).tokenToId =
        vocab.tokenToId.insert t vocab.tokens.length := rfl
    rw [ih h, hlength, hpushed, lastIndexOf]
    rcases lastIndexOf text texts with _ | place
    · by_cases heq : t = text
      · subst heq
        simp [AList.lookup_insert]
      · simp [heq, AList.lookup_insert_ne (Ne.symm heq)]
    · simp only [Option.map_some, Option.some_or, Option.some.injEq]
      omega

theorem tokenIdReads_field {file : GgufFile} {tokenizer : Tokenizer}
    (h : Tokenizer.fromGguf file = .ok tokenizer) (config : LlamaModelConfig) :
    ∀ r ∈ tokenIdReads file,
      r.field tokenizer config = (file.metadataU32 r.key).or r.fallback := by
  obtain ⟨modelName, model, texts, pre, scores, kinds, merges, vocab, hname, hmodel, htexts, -, -,
    -, hvocab, -, rfl⟩ := Tokenizer.fromGguf_steps h
  have hlast : ∀ text : String, vocab.tokenToId.lookup text.toList = file.lastToken text := by
    intro text
    rw [buildVocabulary_lookup hvocab, GgufFile.lastToken, GgufFile.tokenTexts, htexts]
    simp
  -- the family is decided by the name alone
  have hfamily : model = if file.isGpt2 then .Gpt2Bpe else .LlamaSpm := by
    unfold resolveModel at hmodel
    rw [GgufFile.isGpt2, hname]
    split at hmodel
    · rename_i hspm
      obtain rfl := Outcome.ok.inj hmodel
      rw [if_neg]
      rcases hspm with rfl | rfl <;> decide
    · split at hmodel
      · rename_i hbpe
        obtain rfl := Outcome.ok.inj hmodel
        rw [if_pos (by rw [hbpe]; decide)]
      · exact absurd hmodel (by simp)
  intro r hr
  rcases List.mem_append.mp hr with hr | hr
  · simp only [List.mem_cons, List.not_mem_nil, or_false] at hr
    rcases hr with rfl | rfl | rfl | rfl | rfl | rfl | rfl | rfl
    · rcases hbpe : file.isGpt2 with _ | _ <;>
        simp [resolveSpecial, hfamily, hbpe, ← hlast]
    · rcases hbpe : file.isGpt2 with _ | _ <;>
        simp [resolveSpecial, hfamily, hbpe, ← hlast]
    · rcases hbpe : file.isGpt2 with _ | _ <;> simp [resolveSpecial, hfamily, hbpe]
    · simp [resolveSpecial, ← hlast]
    · simp [resolveSpecial]
    · simp [resolveSpecial]
    · simp [resolveSpecial]
    · simp [resolveSpecial]
  · split at hr
    · rename_i hnone
      obtain rfl := List.mem_singleton.mp hr
      simp [resolveSpecial, hnone]
    · exact absurd hr (by simp)

theorem configReads_field {file : GgufFile} {config : LlamaModelConfig}
    (h : LlamaModelConfig.fromGguf file = .ok config) (tokenizer : Tokenizer) :
    ∀ r ∈ configReads file,
      r.field tokenizer config = (file.metadataU32 r.key).or r.fallback := by
  obtain ⟨architecture, harch, -, hcontext, hembedding, hblocks, hfeed, hheads, hconfig⟩ :=
    LlamaModelConfig.fromGguf_steps h
  have hkey : ∀ suffix, file.archKey suffix = architectureKey architecture suffix := by
    intro suffix
    rw [GgufFile.archKey, harch, Option.getD_some]
  intro r hr
  simp only [configReads, hkey, List.mem_cons, List.not_mem_nil, or_false] at hr
  rcases hr with rfl | rfl | rfl | rfl | rfl | rfl | rfl | rfl | rfl | rfl
  · simp [hheads]
  · show some config.attentionHeadCountKv = _
    rw [hconfig]
    dsimp only
    rw [llamaAttentionHeadCountKv, hheads]
    rcases file.metadataU32 (architectureKey architecture "attention.head_count_kv") with _ | kv <;>
      rfl
  · simp [hcontext]
  · simp [hembedding]
  · simp [hblocks]
  · simp [hfeed]
  · show config.ropeDimensionCount = _
    rw [hconfig, Option.or_none]
  · show config.ropeScalingOriginalContextLength = _
    rw [hconfig, Option.or_none]
  · show config.vocabSize = _
    rw [hconfig, hembedding, Option.bind_some]
  · show config.attentionKeyLength = _
    rw [hconfig, Option.or_none]

/-- Every integer field is what its accessor read, else its fallback. -/
theorem u32Reads_field {file : GgufFile} {tokenizer : Tokenizer} {config : LlamaModelConfig}
    (ht : Tokenizer.fromGguf file = .ok tokenizer)
    (hc : LlamaModelConfig.fromGguf file = .ok config) :
    ∀ r ∈ u32Reads file,
      r.field tokenizer config = (file.metadataU32 r.key).or r.fallback := by
  intro r hr
  rcases List.mem_append.mp hr with hr | hr
  · exact tokenIdReads_field ht config r hr
  · exact configReads_field hc tokenizer r hr

/-- Every float field is what its accessor read, else its fallback. -/
theorem f32Reads_field {file : GgufFile} {config : LlamaModelConfig}
    (h : LlamaModelConfig.fromGguf file = .ok config) (tokenizer : Tokenizer) :
    ∀ r ∈ f32Reads file,
      r.field tokenizer config = (file.metadataF32 r.key).or r.fallback := by
  obtain ⟨architecture, harch, -, -, -, -, -, -, hconfig⟩ := LlamaModelConfig.fromGguf_steps h
  have hkey : ∀ suffix, file.archKey suffix = architectureKey architecture suffix := by
    intro suffix
    rw [GgufFile.archKey, harch, Option.getD_some]
  intro r hr
  simp only [f32Reads, hkey, List.mem_cons, List.not_mem_nil, or_false] at hr
  rcases hr with rfl | rfl | rfl | rfl | rfl
  · show config.ropeFreqBase = _
    rw [hconfig, Option.or_none]
  · show config.ropeScalingFactor = _
    rw [hconfig, Option.or_none]
  · show config.ropeScalingLowFreqFactor = _
    rw [hconfig, Option.or_none]
  · show config.ropeScalingHighFreqFactor = _
    rw [hconfig, Option.or_none]
  · show some config.rmsNormEpsilon = _
    rw [hconfig]
    dsimp only
    rcases file.metadataF32
      (architectureKey architecture "attention.layer_norm_rms_epsilon") with _ | eps <;> rfl

-- ---------------------------------------------------------------------------
-- When nothing declared is lost
-- ---------------------------------------------------------------------------

/-- **Declared metadata.** A file that is accepted has every number it declares
under a key that is read in the field of that key exactly when each such value has
a type its accessor takes, or declares just what the fallback is. -/
theorem fromGguf_declared_iff {file : GgufFile} {tokenizer : Tokenizer}
    {config : LlamaModelConfig} (ht : Tokenizer.fromGguf file = .ok tokenizer)
    (hc : LlamaModelConfig.fromGguf file = .ok config) :
    ((∀ r ∈ u32Reads file, r.Kept MetadataValue.declaredU32 file tokenizer config) ∧
      ∀ r ∈ f32Reads file, r.Kept MetadataValue.declaredF32 file tokenizer config) ↔
    (∀ r ∈ u32Reads file, r.Readable MetadataValue.declaredU32 file.metadataU32 file) ∧
      ∀ r ∈ f32Reads file, r.Readable MetadataValue.declaredF32 file.metadataF32 file := by
  have hu : ∀ r ∈ u32Reads file, r.Kept MetadataValue.declaredU32 file tokenizer config ↔
      r.Readable MetadataValue.declaredU32 file.metadataU32 file := by
    intro r hr
    exact Read.kept_iff (fun _ => metadataU32_declared) (u32Reads_field ht hc r hr)
  have hf : ∀ r ∈ f32Reads file, r.Kept MetadataValue.declaredF32 file tokenizer config ↔
      r.Readable MetadataValue.declaredF32 file.metadataF32 file := by
    intro r hr
    exact Read.kept_iff (fun _ => metadataF32_declared) (f32Reads_field hc tokenizer r hr)
  exact and_congr (forall₂_congr hu) (forall₂_congr hf)

/-- A small model of the `llama` family, its end-of-sequence id declared by `eos`. -/
def declaredFile (eos : MetadataValue) : GgufFile where
  version := 3
  tensorCount := 0
  metadataCount := 10
  alignment := 32
  dataStartOffset := 0
  metadata :=
    (∅ : Metadata)
    |>.insert "general.architecture".toList (.String "llama".toList)
    |>.insert "llama.context_length".toList (.U32 8)
    |>.insert "llama.embedding_length".toList (.U64 4)
    |>.insert "llama.block_count".toList (.U32 1)
    |>.insert "llama.feed_forward_length".toList (.U32 4)
    |>.insert "llama.attention.head_count".toList (.U32 2)
    |>.insert "llama.rope.freq_base".toList (.F64 0x40c3880000000000)
    |>.insert "tokenizer.ggml.model".toList (.String "llama".toList)
    |>.insert "tokenizer.ggml.tokens".toList
      (.Array [.String "<unk>".toList, .String "<s>".toList, .String "</s>".toList])
    |>.insert "tokenizer.ggml.eos_token_id".toList eos
  tensors := []

/-- Declared by a `U32`, the id 1 is kept. -/
theorem declaredFile_kept :
    ∃ tokenizer config, Tokenizer.fromGguf (declaredFile (.U32 1)) = .ok tokenizer ∧
      LlamaModelConfig.fromGguf (declaredFile (.U32 1)) = .ok config ∧
      (∀ r ∈ u32Reads (declaredFile (.U32 1)),
        r.Kept MetadataValue.declaredU32 (declaredFile (.U32 1)) tokenizer config) ∧
      ∀ r ∈ f32Reads (declaredFile (.U32 1)),
        r.Kept MetadataValue.declaredF32 (declaredFile (.U32 1)) tokenizer config := by
  have hrun : (do
      let tokenizer ← Tokenizer.fromGguf (declaredFile (.U32 1))
      let config ← LlamaModelConfig.fromGguf (declaredFile (.U32 1))
      (.ok (tokenizer.special.eos, config.headDim) : EngineResult _)) = .ok (some 1, 2) := by
    decide +kernel
  obtain ⟨tokenizer, ht, hrun⟩ := Outcome.bind_eq_ok.mp hrun
  obtain ⟨config, hc, -⟩ := Outcome.bind_eq_ok.mp hrun
  -- every key is absent or read by its accessor
  have hu : ∀ r ∈ u32Reads (declaredFile (.U32 1)),
      ((declaredFile (.U32 1)).metadataU32 r.key).isSome = true ∨
        ((declaredFile (.U32 1)).metadata.lookup r.key.toList).isNone = true := by
    decide +kernel
  have hf : ∀ r ∈ f32Reads (declaredFile (.U32 1)),
      ((declaredFile (.U32 1)).metadataF32 r.key).isSome = true ∨
        ((declaredFile (.U32 1)).metadata.lookup r.key.toList).isNone = true := by
    decide +kernel
  refine ⟨tokenizer, config, ht, hc, (fromGguf_declared_iff ht hc).mpr ⟨?_, ?_⟩⟩
  · intro r hr value hvalue
    rcases hu r hr with hsome | hnone
    · exact Or.inl (Option.isSome_iff_ne_none.mp hsome)
    · rw [hvalue] at hnone
      exact absurd hnone (by simp)
  · intro r hr value hvalue
    rcases hf r hr with hsome | hnone
    · exact Or.inl (Option.isSome_iff_ne_none.mp hsome)
    · rw [hvalue] at hnone
      exact absurd hnone (by simp)

/-- Declared by an `I32`, the id 1 is passed over and the default 2 stands. -/
theorem declaredFile_lost :
    ¬∀ (file : GgufFile) (tokenizer : Tokenizer) (config : LlamaModelConfig),
      Tokenizer.fromGguf file = .ok tokenizer → LlamaModelConfig.fromGguf file = .ok config →
      (∀ r ∈ u32Reads file, r.Kept MetadataValue.declaredU32 file tokenizer config) ∧
        ∀ r ∈ f32Reads file, r.Kept MetadataValue.declaredF32 file tokenizer config := by
  intro hall
  have hrun : (do
      let tokenizer ← Tokenizer.fromGguf (declaredFile (.I32 1))
      let config ← LlamaModelConfig.fromGguf (declaredFile (.I32 1))
      (.ok (tokenizer.special.eos, config.headDim) : EngineResult _)) = .ok (some 2, 2) := by
    decide +kernel
  obtain ⟨tokenizer, ht, hrun⟩ := Outcome.bind_eq_ok.mp hrun
  obtain ⟨config, hc, hrun⟩ := Outcome.bind_eq_ok.mp hrun
  have heos : tokenizer.special.eos = some 2 := (Prod.mk.inj (Outcome.ok.inj hrun)).1
  obtain ⟨d, hd, hfield⟩ := (hall _ tokenizer config ht hc).1
    ⟨"tokenizer.ggml.eos_token_id", fun t _ => t.special.eos, some 2⟩
    (List.mem_cons_of_mem _ List.mem_cons_self) (.I32 1) rfl
  obtain rfl : 1 = d := Option.some.inj hd
  exact absurd (heos.symm.trans hfield) (by decide)

end CamelidEnterprise

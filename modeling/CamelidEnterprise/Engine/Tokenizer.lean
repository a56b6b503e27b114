import Mathlib.Data.Finset.Insert
import CamelidEnterprise.Foundation.Text
import CamelidEnterprise.Engine.Gguf

/-!
# Camelid Enterprise — the tokenizer and how it is built

`crates/engine-core/src/tokenizer.rs`, construction: a `Tokenizer` is read whole
from the metadata of a GGUF header by `fromGguf`, or refused. Encoding and
decoding are in their own modules.

A token id is a natural number: the parser caps an array at `maxArrayLen`
elements, so the source's `idx as TokenId` is the index itself. Scores are kept
as the bits of their floats. A `HashMap` is an `AList`: inserting a key again
replaces its value.

**Key results**: `fromGguf_steps` takes a successful construction apart, and
`fromGguf_wellFormed` says what the lookup tables of its result are good for.
-/

namespace CamelidEnterprise

open Foundation Foundation.Text

/-- Index of a token in the vocabulary. -/
abbrev TokenId := Nat

/-- Vocabulary family. -/
inductive TokenizerModel
  | LlamaSpm
  | Gpt2Bpe
deriving DecidableEq, Repr

/-- GPT-2/BPE pre-tokenizer dialect. -/
inductive BpePreTokenizer
  | Llama3
  | Qwen2
  | Qwen35
deriving DecidableEq, Repr

/-- `BpePreTokenizer::digit_group_max` -/
def BpePreTokenizer.digitGroupMax : BpePreTokenizer → Nat
  | .Llama3 => 3
  | .Qwen2 | .Qwen35 => 1

/-- `BpePreTokenizer::fold_marks` -/
def BpePreTokenizer.foldMarks : BpePreTokenizer → Bool
  | .Qwen35 => true
  | _ => false

/-- Per-token type. -/
inductive TokenKind
  | Undefined
  | Normal
  | Unknown
  | Control
  | UserDefined
  | Unused
  | Byte
deriving DecidableEq, Repr

/-- `TokenKind::from_i32` -/
def TokenKind.fromI32 (value : Int) : EngineResult TokenKind :=
  match value with
  | 0 => .ok .Undefined
  | 1 => .ok .Normal
  | 2 => .ok .Unknown
  | 3 => .ok .Control
  | 4 => .ok .UserDefined
  | 5 => .ok .Unused
  | 6 => .ok .Byte
  | other => .err (.InvalidTokenizerMetadata s!"unknown tokenizer token type {other}")

/-- One vocabulary entry. -/
structure Token where
  id : TokenId
  text : Str
  score : UInt32
  kind : TokenKind
deriving DecidableEq, Repr

/-- `is_chat_control_marker` -/
def isChatControlMarker (token : Token) : Bool :=
  token.kind == .UserDefined && "<|".toList.isPrefixOf token.text &&
    "|>".toList.isSuffixOf token.text

/-- `BpeRegistry`: the merge rank of a symbol pair. -/
structure BpeRegistry where
  ranks : AList fun _ : Str × Str => Nat

/-- `merge.split_once(' ')` -/
def splitOnceSpace : Str → Option (Str × Str)
  | [] => none
  | c :: cs => if c = ' ' then some ([], cs) else (splitOnceSpace cs).map fun p => (c :: p.1, p.2)

/-- `BpeRegistry::from_merges`: a later rule for the same pair replaces an earlier one. -/
def BpeRegistry.fromMerges (merges : List Str) : BpeRegistry :=
  ⟨merges.zipIdx.foldl (fun ranks entry =>
    match splitOnceSpace entry.1 with
    | some pair => ranks.insert pair entry.2
    | none => ranks) ∅⟩

/-- `BpeRegistry::rank` -/
def BpeRegistry.rank (registry : BpeRegistry) (left right : Str) : Option Nat :=
  registry.ranks.lookup (left, right)

/-- Special token ids. -/
structure SpecialTokens where
  bos : Option TokenId
  eos : Option TokenId
  eot : Option TokenId
  eom : Option TokenId
  unk : Option TokenId
  sep : Option TokenId
  pad : Option TokenId
  mask : Option TokenId
  eog : Finset TokenId
deriving DecidableEq

/-- Behavior flags. -/
structure TokenizerConfig where
  addBos : Bool
  addEos : Bool
  addSep : Bool
  addSpacePrefix : Bool
  removeExtraWhitespaces : Bool
deriving DecidableEq, Repr

/-- A tokenizer, as `Tokenizer::from_gguf` fills it in. -/
structure Tokenizer where
  model : TokenizerModel
  bpePreTokenizer : BpePreTokenizer
  tokens : List Token
  tokenToId : AList fun _ : Str => TokenId
  byteTokenToId : AList fun _ : UInt8 => TokenId
  bpeRanks : AList fun _ : Str × Str => Nat
  bpeRegistry : BpeRegistry
  special : SpecialTokens
  config : TokenizerConfig
  chatTemplate : Option Str

/-! ## Construction -/

/-- The value of a hexadecimal digit. -/
def hexDigit (c : Char) : Option Nat :=
  if '0' ≤ c ∧ c ≤ '9' then some (c.toNat - '0'.toNat)
  else if 'a' ≤ c ∧ c ≤ 'f' then some (c.toNat - 'a'.toNat + 10)
  else if 'A' ≤ c ∧ c ≤ 'F' then some (c.toNat - 'A'.toNat + 10)
  else none

/-- `u8::from_str_radix(hex, 16)` on two bytes: a leading `+` is a sign. -/
def parseHexByte : Str → Option UInt8
  | ['+', lo] => (hexDigit lo).map UInt8.ofNat
  | [hi, lo] => do
    let hi ← hexDigit hi
    let lo ← hexDigit lo
    some (UInt8.ofNat (16 * hi + lo))
  | _ => none

/-- `strip_prefix` -/
def stripPrefix (lead text : Str) : Option Str :=
  if lead.isPrefixOf text then some (text.drop lead.length) else none

/-- `parse_byte_token` -/
def parseByteToken (text : Str) : Option UInt8 := do
  let rest ← stripPrefix "<0x".toList text
  let reversed ← stripPrefix ">".toList rest.reverse
  let hex := reversed.reverse
  if byteLen hex ≠ 2 then none else parseHexByte hex

/-- `is_llama3_bpe_signature` -/
def isLlama3BpeSignature (tokenTexts : List Str) : Bool :=
  tokenTexts.length == 128256 &&
    tokenTexts[128000]? == some "<|begin_of_text|>".toList &&
    tokenTexts[128001]? == some "<|end_of_text|>".toList &&
    tokenTexts[128006]? == some "<|start_header_id|>".toList &&
    tokenTexts[128007]? == some "<|end_header_id|>".toList &&
    tokenTexts[128009]? == some "<|eot_id|>".toList

/-- `{other:?}` of an optional string. -/
def debugOption : Option Str → String
  | none => "None"
  | some text => s!"Some({debug text})"

/-- `resolve_gpt2_pre_tokenizer` -/
def resolveGpt2PreTokenizer (pre : Option Str) (tokenTexts : List Str) :
    EngineResult BpePreTokenizer :=
  if pre = some "llama-bpe".toList then .ok .Llama3
  else if pre = some "qwen2".toList then .ok .Qwen2
  else if pre = some "qwen35".toList then .ok .Qwen35
  else if pre = none ∧ isLlama3BpeSignature tokenTexts then .ok .Llama3
  else .err (.UnsupportedTokenizer
    s!"unsupported GPT-2/BPE pre-tokenizer {debugOption pre}; currently supported: llama-bpe, qwen2, qwen35")

/-- `tokenizer.ggml.model` as a family. -/
def resolveModel (modelName : Str) : EngineResult TokenizerModel :=
  if modelName = "llama".toList ∨ modelName = "gemma4".toList then .ok .LlamaSpm
  else if modelName = "gpt2".toList then .ok .Gpt2Bpe
  else .err (.UnsupportedTokenizer
    s!"unsupported tokenizer model {debug modelName}; currently supported: llama/SPM, gemma4/SPM, and GPT-2/BPE llama-bpe")

/-- The token list and its two indices, as the construction loop grows them. -/
structure Vocabulary where
  tokens : List Token
  tokenToId : AList fun _ : Str => TokenId
  byteTokenToId : AList fun _ : UInt8 => TokenId

/-- One pass of the construction loop. -/
def Vocabulary.push (vocab : Vocabulary) (text : Str) (score : UInt32) (kind : TokenKind) :
    Vocabulary :=
  let id := vocab.tokens.length
  { tokens := vocab.tokens ++ [⟨id, text, score, kind⟩]
    tokenToId := vocab.tokenToId.insert text id
    byteTokenToId := match parseByteToken text with
      | some byte => vocab.byteTokenToId.insert byte id
      | none => vocab.byteTokenToId }

/-- The `for (idx, text) in token_texts.into_iter().enumerate()` loop; `idx` is
the number of tokens pushed so far. -/
def buildVocabulary (kindsRaw : List Int) (scores : List UInt32) :
    List Str → Vocabulary → EngineResult Vocabulary
  | [], vocab => .ok vocab
  | text :: texts, vocab => do
    let kindRaw ← Outcome.orPanic kindsRaw[vocab.tokens.length]?
    let kind ← TokenKind.fromI32 kindRaw
    let score ← Outcome.orPanic scores[vocab.tokens.length]?
    buildVocabulary kindsRaw scores texts (vocab.push text score kind)

/-- `EOG_MARKER_TEXTS` -/
def eogMarkerTexts : List Str :=
  ["<|end|>".toList, "<|eot_id|>".toList, "<|im_end|>".toList, "<end_of_turn>".toList,
    "<|eom_id|>".toList]

/-- The special ids: from the metadata, else from the vocabulary or the family. -/
def resolveSpecial (file : Gguf.GgufFile) (model : TokenizerModel) (vocab : Vocabulary) :
    SpecialTokens :=
  let defaultBos := match model with
    | .LlamaSpm => some 1
    | .Gpt2Bpe => vocab.tokenToId.lookup "<|begin_of_text|>".toList
  let defaultEos := match model with
    | .LlamaSpm => some 2
    | .Gpt2Bpe => vocab.tokenToId.lookup "<|end_of_text|>".toList
  let defaultUnk := match model with
    | .LlamaSpm => some 0
    | .Gpt2Bpe => none
  let eos := (file.metadataU32 "tokenizer.ggml.eos_token_id").or defaultEos
  let eot := (file.metadataU32 "tokenizer.ggml.eot_token_id").or
    (vocab.tokenToId.lookup "<|eot_id|>".toList)
  let eom := file.metadataU32 "tokenizer.ggml.eom_token_id"
  { bos := (file.metadataU32 "tokenizer.ggml.bos_token_id").or defaultBos
    eos
    eot
    eom
    unk := (file.metadataU32 "tokenizer.ggml.unknown_token_id").or defaultUnk
    -- the second key is the misspelling some exports write
    sep := (file.metadataU32 "tokenizer.ggml.separator_token_id").or
      (file.metadataU32 "tokenizer.ggml.seperator_token_id")
    pad := file.metadataU32 "tokenizer.ggml.padding_token_id"
    mask := file.metadataU32 "tokenizer.ggml.mask_token_id"
    eog := ([eos, eot, eom].reduceOption ++
      eogMarkerTexts.filterMap vocab.tokenToId.lookup).toFinset }

/-- `validate_token_id` -/
def validateTokenId (name : String) (id : Option TokenId) (len : Nat) : EngineResult Unit :=
  match id with
  | some id =>
    if id ≥ len then
      .err (.InvalidTokenizerMetadata s!"{name} token id {id} out of range for vocab size {len}")
    else .ok ()
  | none => .ok ()

/-- The eight checks on the special ids. -/
def validateSpecial (special : SpecialTokens) (len : Nat) : EngineResult Unit := do
  validateTokenId "bos" special.bos len
  validateTokenId "eos" special.eos len
  validateTokenId "unk" special.unk len
  validateTokenId "eot" special.eot len
  validateTokenId "eom" special.eom len
  validateTokenId "sep" special.sep len
  validateTokenId "pad" special.pad len
  validateTokenId "mask" special.mask len

/-- The behavior flags, with their defaults. -/
def resolveConfig (file : Gguf.GgufFile) (modelName : Str) : TokenizerConfig where
  addBos :=
    if modelName = "gemma4".toList then true
    else (file.metadataBool "tokenizer.ggml.add_bos_token").getD true
  addEos := (file.metadataBool "tokenizer.ggml.add_eos_token").getD false
  addSep := (file.metadataBool "tokenizer.ggml.add_sep_token").getD false
  addSpacePrefix := (file.metadataBool "tokenizer.ggml.add_space_prefix").getD true
  removeExtraWhitespaces :=
    (file.metadataBool "tokenizer.ggml.remove_extra_whitespaces").getD false

/-- The family's pre-tokenizer; SPM files have none and keep the default. -/
def resolvePreTokenizer (file : Gguf.GgufFile) (model : TokenizerModel) (tokenTexts : List Str) :
    EngineResult BpePreTokenizer :=
  match model with
  | .Gpt2Bpe => resolveGpt2PreTokenizer (file.metadataString "tokenizer.ggml.pre") tokenTexts
  | .LlamaSpm => .ok .Llama3

/-- `Tokenizer::from_gguf` -/
def Tokenizer.fromGguf (file : Gguf.GgufFile) : EngineResult Tokenizer := do
  let modelName ← Outcome.okOr .TokenizerNotAvailable (file.metadataString "tokenizer.ggml.model")
  let model ← resolveModel modelName
  let tokenTexts ← file.metadataArrayStrings "tokenizer.ggml.tokens"
  if tokenTexts = [] then
    .err (.InvalidTokenizerMetadata "tokenizer.ggml.tokens must not be empty")
  else
    let bpePreTokenizer ← resolvePreTokenizer file model tokenTexts
    let declaredScores ← file.metadataArrayF32Optional "tokenizer.ggml.scores"
    let scores := declaredScores.getD (List.replicate tokenTexts.length 0)
    if scores.length < tokenTexts.length then
      .err (.InvalidTokenizerMetadata
        s!"tokenizer.ggml.scores length {scores.length} is shorter than token count {tokenTexts.length}")
    else
      let declaredKinds ← file.metadataArrayI32Optional "tokenizer.ggml.token_type"
      let kindsRaw := declaredKinds.getD (List.replicate tokenTexts.length 1)
      if kindsRaw.length < tokenTexts.length then
        .err (.InvalidTokenizerMetadata
          s!"tokenizer.ggml.token_type length {kindsRaw.length} is shorter than token count {tokenTexts.length}")
      else
        let merges ← file.metadataArrayStringsOptional "tokenizer.ggml.merges"
        let bpeRegistry := BpeRegistry.fromMerges (merges.getD [])
        let vocab ← buildVocabulary kindsRaw scores tokenTexts ⟨[], ∅, ∅⟩
        let special := resolveSpecial file model vocab
        validateSpecial special vocab.tokens.length
        .ok
          { model
            bpePreTokenizer
            tokens := vocab.tokens
            tokenToId := vocab.tokenToId
            byteTokenToId := vocab.byteTokenToId
            bpeRanks := bpeRegistry.ranks
            bpeRegistry
            special
            config := resolveConfig file modelName
            chatTemplate := file.metadataString "tokenizer.chat_template" }

/-! ## What construction guarantees -/

/-- The two indices of a vocabulary agree with its token list. -/
structure Indexed (tokens : List Token) (tokenToId : AList fun _ : Str => TokenId)
    (byteTokenToId : AList fun _ : UInt8 => TokenId) : Prop where
  /-- a token's id is its place -/
  ids : ∀ (i : Nat) (token : Token), tokens[i]? = some token → token.id = i
  /-- a text is indexed to a token with that text -/
  texts : ∀ text id, tokenToId.lookup text = some id →
    ∃ token, tokens[id]? = some token ∧ token.text = text
  /-- and to the last such token -/
  latest : ∀ (i : Nat) (token : Token), tokens[i]? = some token →
    ∃ id, tokenToId.lookup token.text = some id ∧ i ≤ id
  /-- a byte is indexed to a token that spells it -/
  bytes : ∀ byte id, byteTokenToId.lookup byte = some id →
    ∃ token, tokens[id]? = some token ∧ parseByteToken token.text = some byte

/-- The index of a vocabulary after one more token. -/
theorem Indexed.push {vocab : Vocabulary}
    (h : Indexed vocab.tokens vocab.tokenToId vocab.byteTokenToId) (text : Str) (score : UInt32)
    (kind : TokenKind) :
    Indexed (vocab.push text score kind).tokens (vocab.push text score kind).tokenToId
      (vocab.push text score kind).byteTokenToId := by
  set token : Token := ⟨vocab.tokens.length, text, score, kind⟩ with htoken
  -- a place in the longer list is an old place or the new last one
  have hplace : ∀ {i : Nat} {t : Token}, (vocab.tokens ++ [token])[i]? = some t →
      vocab.tokens[i]? = some t ∨ i = vocab.tokens.length ∧ t = token := by
    intro i t hi
    rcases Nat.lt_trichotomy i vocab.tokens.length with hlt | heq | hgt
    · rw [List.getElem?_append_left hlt] at hi
      exact Or.inl hi
    · subst heq
      rw [List.getElem?_concat_length, Option.some.injEq] at hi
      exact Or.inr ⟨rfl, hi.symm⟩
    · have hlen : (vocab.tokens ++ [token]).length ≤ i := by
        rw [List.length_append, List.length_singleton]
        omega
      rw [List.getElem?_eq_none hlen] at hi
      cases hi
  have hnew : (vocab.tokens ++ [token])[vocab.tokens.length]? = some token :=
    List.getElem?_concat_length
  have hold : ∀ {i : Nat} {t : Token}, vocab.tokens[i]? = some t →
      (vocab.tokens ++ [token])[i]? = some t := by
    intro i t hi
    obtain ⟨hlt, -⟩ := List.getElem?_eq_some_iff.mp hi
    rw [List.getElem?_append_left hlt]
    exact hi
  refine ⟨?_, ?_, ?_, ?_⟩
  · intro i t hi
    rcases hplace hi with hi | ⟨rfl, rfl⟩
    · exact h.ids i t hi
    · rfl
  · intro text' id hid
    show ∃ t, (vocab.tokens ++ [token])[id]? = some t ∧ t.text = text'
    change (vocab.tokenToId.insert text vocab.tokens.length).lookup text' = some id at hid
    by_cases heq : text' = text
    · subst heq
      rw [AList.lookup_insert, Option.some.injEq] at hid
      subst hid
      exact ⟨token, hnew, rfl⟩
    · rw [AList.lookup_insert_ne heq] at hid
      obtain ⟨t, ht, htext⟩ := h.texts text' id hid
      exact ⟨t, hold ht, htext⟩
  · intro i t hi
    show ∃ id, (vocab.tokenToId.insert text vocab.tokens.length).lookup t.text = some id ∧ i ≤ id
    by_cases heq : t.text = text
    · rw [heq]
      refine ⟨_, AList.lookup_insert _, ?_⟩
      rcases hplace hi with hi | ⟨rfl, -⟩
      · exact Nat.le_of_lt (List.getElem?_eq_some_iff.mp hi).1
      · exact Nat.le_refl _
    · rw [AList.lookup_insert_ne heq]
      rcases hplace hi with hi | ⟨-, rfl⟩
      · exact h.latest i t hi
      · exact absurd rfl heq
  · intro byte id hid
    show ∃ t, (vocab.tokens ++ [token])[id]? = some t ∧ parseByteToken t.text = some byte
    have hcases : (parseByteToken text = some byte ∧ id = vocab.tokens.length) ∨
        vocab.byteTokenToId.lookup byte = some id := by
      simp only [Vocabulary.push] at hid
      split at hid
      · rename_i byte' hbyte
        by_cases heq : byte = byte'
        · subst heq
          rw [AList.lookup_insert, Option.some.injEq] at hid
          exact Or.inl ⟨hbyte, hid.symm⟩
        · rw [AList.lookup_insert_ne heq] at hid
          exact Or.inr hid
      · exact Or.inr hid
    rcases hcases with ⟨hbyte, rfl⟩ | hid
    · exact ⟨token, hnew, hbyte⟩
    · obtain ⟨t, ht, htext⟩ := h.bytes byte id hid
      exact ⟨t, hold ht, htext⟩

theorem buildVocabulary_indexed {kindsRaw : List Int} {scores : List UInt32} {texts : List Str}
    {vocab result : Vocabulary} (h : Indexed vocab.tokens vocab.tokenToId vocab.byteTokenToId)
    (hbuild : buildVocabulary kindsRaw scores texts vocab = .ok result) :
    Indexed result.tokens result.tokenToId result.byteTokenToId := by
  induction texts generalizing vocab with
  | nil =>
    obtain rfl := Outcome.ok.inj hbuild
    exact h
  | cons text texts ih =>
    obtain ⟨kindRaw, -, hbuild⟩ := Outcome.bind_eq_ok.mp hbuild
    obtain ⟨kind, -, hbuild⟩ := Outcome.bind_eq_ok.mp hbuild
    obtain ⟨score, -, hbuild⟩ := Outcome.bind_eq_ok.mp hbuild
    exact ih (h.push text score kind) hbuild

theorem Indexed.empty : Indexed [] ∅ ∅ := by
  refine ⟨?_, ?_, ?_, ?_⟩
  · intro i token h
    cases h
  · intro text id h
    rw [AList.lookup_empty] at h
    cases h
  · intro i token h
    cases h
  · intro byte id h
    rw [AList.lookup_empty] at h
    cases h

/-- The steps of a construction that succeeded. -/
theorem Tokenizer.fromGguf_steps {file : Gguf.GgufFile} {tokenizer : Tokenizer}
    (h : Tokenizer.fromGguf file = .ok tokenizer) :
    ∃ modelName model texts pre scores kindsRaw merges vocab,
      file.metadataString "tokenizer.ggml.model" = some modelName ∧
      resolveModel modelName = .ok model ∧
      file.metadataArrayStrings "tokenizer.ggml.tokens" = .ok texts ∧ texts ≠ [] ∧
      resolvePreTokenizer file model texts = .ok pre ∧
      file.metadataArrayStringsOptional "tokenizer.ggml.merges" = .ok merges ∧
      buildVocabulary kindsRaw scores texts ⟨[], ∅, ∅⟩ = .ok vocab ∧
      validateSpecial (resolveSpecial file model vocab) vocab.tokens.length = .ok () ∧
      tokenizer =
        { model
          bpePreTokenizer := pre
          tokens := vocab.tokens
          tokenToId := vocab.tokenToId
          byteTokenToId := vocab.byteTokenToId
          bpeRanks := (BpeRegistry.fromMerges (merges.getD [])).ranks
          bpeRegistry := BpeRegistry.fromMerges (merges.getD [])
          special := resolveSpecial file model vocab
          config := resolveConfig file modelName
          chatTemplate := file.metadataString "tokenizer.chat_template" } := by
  obtain ⟨modelName, hname, h⟩ := Outcome.bind_eq_ok.mp h
  obtain ⟨model, hmodel, h⟩ := Outcome.bind_eq_ok.mp h
  obtain ⟨texts, htexts, h⟩ := Outcome.bind_eq_ok.mp h
  split at h
  · cases h
  rename_i hne
  obtain ⟨pre, hpre, h⟩ := Outcome.bind_eq_ok.mp h
  obtain ⟨scores, -, h⟩ := Outcome.bind_eq_ok.mp h
  dsimp only at h
  split at h
  · cases h
  obtain ⟨kinds, -, h⟩ := Outcome.bind_eq_ok.mp h
  split at h
  · cases h
  obtain ⟨merges, hmerges, h⟩ := Outcome.bind_eq_ok.mp h
  obtain ⟨vocab, hvocab, h⟩ := Outcome.bind_eq_ok.mp h
  obtain ⟨⟨⟩, hspecial, h⟩ := Outcome.bind_eq_ok.mp h
  exact ⟨modelName, model, texts, pre, _, _, merges, vocab, Outcome.okOr_eq_ok.mp hname, hmodel,
    htexts, hne, hpre, hmerges, hvocab, hspecial, (Outcome.ok.inj h).symm⟩

/-- A tokenizer whose tables agree with each other. -/
structure Tokenizer.WellFormed (tokenizer : Tokenizer) : Prop where
  indexed : Indexed tokenizer.tokens tokenizer.tokenToId tokenizer.byteTokenToId
  ranks : tokenizer.bpeRanks = tokenizer.bpeRegistry.ranks

/-- **Key lemma.** Every tokenizer that construction accepts is well formed. -/
theorem Tokenizer.fromGguf_wellFormed {file : Gguf.GgufFile} {tokenizer : Tokenizer}
    (h : Tokenizer.fromGguf file = .ok tokenizer) : tokenizer.WellFormed := by
  obtain ⟨_, _, _, _, _, _, _, vocab, -, -, -, -, -, -, hvocab, -, rfl⟩ := fromGguf_steps h
  refine ⟨buildVocabulary_indexed ?_ hvocab, rfl⟩
  exact Indexed.empty

end CamelidEnterprise

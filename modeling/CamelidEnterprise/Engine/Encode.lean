import CamelidEnterprise.Engine.Pretokenizer
import CamelidEnterprise.Foundation.Word

/-!
# Camelid Enterprise — encoding text to token ids

Both vocabulary families. A GPT-2/BPE text is partitioned at the special tokens
that occur in it; what lies between is pre-tokenized, its bytes are spelled in the
byte alphabet and merged by rank. A SentencePiece text is normalized to
meta-spaces, then merged by rank or by score, with a greedy match and byte tokens
for what is left over.

Each `while` loop of the source is a function with a fuel argument that faults
where it would run out; the ids a loop pushes are the list it returns.
-/

namespace CamelidEnterprise

open Foundation Foundation.Text Foundation.Word

/-- `SPM_SPACE` -/
def spmSpace : Char := '▁'

/-! ## Byte alphabet -/

/-- The bytes that are spelled as the character of the same number. -/
def visibleByte (n : Nat) : Bool :=
  (33 ≤ n && n ≤ 126) || (161 ≤ n && n ≤ 172) || (174 ≤ n && n ≤ 255)

/-- `bpe_byte_to_char` -/
def bpeByteToChar (byte : UInt8) : Char :=
  if visibleByte byte.toNat then Char.ofNat byte.toNat
  else Char.ofNat (256 + ((List.range byte.toNat).filter fun n => !visibleByte n).length)

/-- The bytes in the order a search over `0..=u8::MAX` tries them. -/
def allBytes : List UInt8 := (List.range 256).map UInt8.ofNat

/-- `bpe_char_to_byte` -/
def bpeCharToByte (ch : Char) : Option UInt8 :=
  allBytes.find? fun byte => bpeByteToChar byte == ch

/-! ## Merging by rank -/

/-- A mergeable pair: its rank, and the index of its left symbol. -/
structure BpeMergeCandidate where
  rank : Nat
  index : Nat
deriving DecidableEq, Repr

/-- `Ord for BpeMergeCandidate`, as "`a` is popped before `b`". -/
def BpeMergeCandidate.before (a b : BpeMergeCandidate) : Bool :=
  a.rank < b.rank || (a.rank == b.rank && a.index < b.index)

/-- The candidate a heap of them pops first. -/
def popBest : List BpeMergeCandidate → Option BpeMergeCandidate
  | [] => none
  | c :: cs =>
    match popBest cs with
    | none => some c
    | some best => if best.before c then some best else some c

/-- The `for idx in 0..symbols.len() - 1` loop that fills the heap. -/
def mergeCandidates (registry : BpeRegistry) : List Str → Nat → List BpeMergeCandidate
  | left :: right :: rest, idx =>
    match registry.rank left right with
    | some rank => ⟨rank, idx⟩ :: mergeCandidates registry (right :: rest) (idx + 1)
    | none => mergeCandidates registry (right :: rest) (idx + 1)
  | _, _ => []

/-- One pass that merges every occurrence of a pair, left to right. -/
def mergePair (left right : Str) : List Str → List Str
  | a :: b :: rest =>
    if a = left ∧ b = right then (a ++ b) :: mergePair left right rest
    else a :: mergePair left right (b :: rest)
  | symbols => symbols

/-- The `while symbols.len() > 1` loop of `merge_symbols`. -/
def mergeSymbolsFuel (registry : BpeRegistry) : Nat → List Str → EngineResult (List Str)
  | 0, _ => .fault .fuel
  | fuel + 1, symbols =>
    if symbols.length > 1 then
      match popBest (mergeCandidates registry symbols 0) with
      | none => .ok symbols
      | some best => do
        let left ← Outcome.orPanic symbols[best.index]?
        let right ← Outcome.orPanic symbols[best.index + 1]?
        mergeSymbolsFuel registry fuel (mergePair left right symbols)
    else
      .ok symbols

/-- `BpeRegistry::merge_symbols` -/
def BpeRegistry.mergeSymbols (registry : BpeRegistry) (symbols : List Str) :
    EngineResult (List Str) :=
  mergeSymbolsFuel registry (symbols.length + 1) symbols

/-! ## Special tokens in a text -/

/-- `max_by_key`: the last of the elements with the greatest key. -/
def maxByKey {α : Type} (key : α → Nat) : List α → Option α
  | [] => none
  | a :: as =>
    match maxByKey key as with
    | none => some a
    | some best => if key best < key a then some a else some best

namespace Tokenizer

/-- `token_text` -/
def tokenText (tokenizer : Tokenizer) (id : Option TokenId) : Option Str :=
  id.bind fun id => tokenizer.tokens[id]?.map (·.text)

/-- `token_id` -/
def tokenId (tokenizer : Tokenizer) (text : Str) : Option TokenId :=
  tokenizer.tokenToId.lookup text

/-- The tokens that are matched in raw text. -/
def isPartitionToken (includeControl : Bool) (token : Token) : Bool :=
  (token.kind == .UserDefined || (includeControl && token.kind == .Control)) &&
    !token.text.isEmpty

/-- The longest such token a text starts with. -/
def longestControlToken (tokenizer : Tokenizer) (includeControl : Bool) (rest : Str) :
    Option Token :=
  maxByKey (fun token => byteLen token.text) <|
    tokenizer.tokens.filter fun token =>
      isPartitionToken includeControl token && token.text.isPrefixOf rest

/-- `longest_control_token_at` -/
def longestControlTokenAt (tokenizer : Tokenizer) (text : Str) (byteStart : Nat)
    (includeControl : Bool) : Option (Str × Nat) := do
  let rest ← sliceFrom text byteStart
  let token ← tokenizer.longestControlToken includeControl rest
  some (token.text, byteLen token.text)

/-- `next_control_token_start` -/
def nextControlTokenStart (tokenizer : Tokenizer) (text : Str) (byteStart : Nat)
    (includeControl : Bool) : EngineResult (Option Nat) := do
  let rest ← Outcome.orPanic (sliceFrom text byteStart)
  .ok <| (charIndices rest byteStart).find? fun idx =>
    (tokenizer.longestControlTokenAt text idx includeControl).isSome

/-! ## GPT-2/BPE -/

/-- The id of each merged symbol. -/
def symbolIds (tokenizer : Tokenizer) : List Str → EngineResult (List TokenId)
  | [] => .ok []
  | symbol :: symbols => do
    let id ← Outcome.okOr
      (.InvalidTokenizerMetadata
        s!"GPT-2/BPE token {debug symbol} is missing from tokenizer.ggml.tokens")
      (tokenizer.tokenToId.lookup symbol)
    let ids ← symbolIds tokenizer symbols
    .ok (id :: ids)

/-- `encode_bpe_segment` -/
def encodeBpeSegment (tokenizer : Tokenizer) (segment : Str) : EngineResult (List TokenId) :=
  if segment.isEmpty then
    .ok []
  else do
    let symbols ← tokenizer.bpeRegistry.mergeSymbols
      ((Utf8.encode segment).map fun byte => [bpeByteToChar byte])
    tokenizer.symbolIds symbols

/-- The loop over a slice's segments. -/
def encodeBpeSegments (tokenizer : Tokenizer) : List Str → EngineResult (List TokenId)
  | [] => .ok []
  | segment :: segments => do
    let ids ← tokenizer.encodeBpeSegment segment
    let later ← encodeBpeSegments tokenizer segments
    .ok (ids ++ later)

/-- The special token an encoding pass takes at `byteStart`, with its byte length. -/
def controlIdAt (tokenizer : Tokenizer) (text : Str) (byteStart : Nat) (includeControl : Bool) :
    Option (TokenId × Nat) := do
  let (tokenText, tokenLen) ← tokenizer.longestControlTokenAt text byteStart includeControl
  let id ← tokenizer.tokenToId.lookup tokenText
  some (id, tokenLen)

/-- The `while byte_start < text.len()` loop of `encode_bpe_text`. -/
def encodeBpeFrom (cls : CharClass) (tokenizer : Tokenizer) (text : Str) (parseSpecial : Bool) :
    Nat → Nat → EngineResult (List TokenId)
  | 0, _ => .fault .fuel
  | fuel + 1, byteStart =>
    if byteStart < byteLen text then
      match tokenizer.controlIdAt text byteStart parseSpecial with
      | some (id, tokenLen) => do
        let later ← encodeBpeFrom cls tokenizer text parseSpecial fuel (byteStart + tokenLen)
        .ok (id :: later)
      | none => do
        let next ← tokenizer.nextControlTokenStart text byteStart parseSpecial
        let byteEnd := next.getD (byteLen text)
        let piece ← Outcome.orPanic (slice text byteStart byteEnd)
        let segments ← bpePretokenizeWith cls piece tokenizer.bpePreTokenizer.digitGroupMax
          tokenizer.bpePreTokenizer.foldMarks
        let ids ← tokenizer.encodeBpeSegments segments
        let later ← encodeBpeFrom cls tokenizer text parseSpecial fuel byteEnd
        .ok (ids ++ later)
    else
      .ok []

/-- `encode_bpe_text` -/
def encodeBpeText (cls : CharClass) (tokenizer : Tokenizer) (text : Str) (parseSpecial : Bool) :
    EngineResult (List TokenId) :=
  encodeBpeFrom cls tokenizer text parseSpecial (byteLen text + 1) 0

/-! ## SentencePiece -/

/-- `should_insert_dummy_after_control` -/
def shouldInsertDummyAfterControl (tokenizer : Tokenizer) (tokenText rest : Str)
    (nextIsControl : Bool) : Bool :=
  let hasInst := (tokenizer.tokenToId.lookup "[INST]".toList).isSome &&
    (tokenizer.tokenToId.lookup "[/INST]".toList).isSome
  if rest.isEmpty || nextIsControl then false
  -- no dummy between BOS and `[INST]`
  else if tokenizer.tokenText tokenizer.special.bos == some tokenText &&
      "[INST]".toList.isPrefixOf rest && hasInst then false
  -- always one after `[INST]`
  else if tokenText == "[INST]".toList && hasInst then true
  else !([spmSpace].isPrefixOf rest)

/-- The loop of `add_dummy_prefix_after_control_tokens`. -/
def addDummyFrom (tokenizer : Tokenizer) (text : Str) : Nat → Nat → EngineResult Str
  | 0, _ => .fault .fuel
  | fuel + 1, byteStart =>
    if byteStart < byteLen text then
      match tokenizer.longestControlTokenAt text byteStart true with
      | some (tokenText, tokenLen) => do
        let byteStart := byteStart + tokenLen
        let rest ← Outcome.orPanic (sliceFrom text byteStart)
        let nextIsControl := (tokenizer.longestControlTokenAt text byteStart true).isSome
        let later ← addDummyFrom tokenizer text fuel byteStart
        if tokenizer.shouldInsertDummyAfterControl tokenText rest nextIsControl then
          .ok (tokenText ++ spmSpace :: later)
        else
          .ok (tokenText ++ later)
      | none => do
        let ch ← expectChar text byteStart
        let later ← addDummyFrom tokenizer text fuel (byteStart + ch.utf8Size)
        .ok (ch :: later)
    else
      .ok []

/-- `add_dummy_prefix_after_control_tokens` -/
def addDummyPrefixAfterControlTokens (tokenizer : Tokenizer) (text : Str) : EngineResult Str :=
  if !tokenizer.config.addSpacePrefix || text.isEmpty then .ok text
  else addDummyFrom tokenizer text (byteLen text + 1) 0

/-- `normalize_spm_text` -/
def normalizeSpmText (tokenizer : Tokenizer) (text : Str) (parseSpecial : Bool) :
    EngineResult Str :=
  if text.isEmpty then
    .ok []
  else
    let spaced := text.map fun ch => if ch = ' ' then spmSpace else ch
    let normalized :=
      if tokenizer.config.addSpacePrefix &&
          !(parseSpecial && (tokenizer.longestControlTokenAt text 0 true).isSome)
      then spmSpace :: spaced
      else spaced
    if parseSpecial then .ok normalized
    else tokenizer.addDummyPrefixAfterControlTokens normalized

/-- The best pair so far in one pass of `merge_spm_symbols_by_score`: its score
and the index of its left symbol. -/
def bestSpmPair (tokenizer : Tokenizer) :
    List Str → Nat → Option (UInt32 × Nat) → EngineResult (Option (UInt32 × Nat))
  | left :: right :: rest, idx, best =>
    let candidate := left ++ right
    if contains [spmSpace, spmSpace] candidate then
      bestSpmPair tokenizer (right :: rest) (idx + 1) best
    else
      match tokenizer.tokenToId.lookup candidate with
      | none => bestSpmPair tokenizer (right :: rest) (idx + 1) best
      | some id => do
        let token ← Outcome.orPanic tokenizer.tokens[id]?
        match best with
        | some (bestScore, bestIdx) =>
          if f32Lt token.score bestScore || (f32Eq token.score bestScore && idx ≥ bestIdx) then
            bestSpmPair tokenizer (right :: rest) (idx + 1) best
          else
            bestSpmPair tokenizer (right :: rest) (idx + 1) (some (token.score, idx))
        | none => bestSpmPair tokenizer (right :: rest) (idx + 1) (some (token.score, idx))
  | _, _, best => .ok best

/-- `symbols[idx] = ..; symbols.remove(idx + 1)` -/
def joinAt : Nat → List Str → List Str
  | 0, a :: b :: rest => (a ++ b) :: rest
  | idx + 1, a :: rest => a :: joinAt idx rest
  | _, symbols => symbols

/-- The `loop` of `merge_spm_symbols_by_score`. -/
def mergeSpmFuel (tokenizer : Tokenizer) : Nat → List Str → EngineResult (List Str)
  | 0, _ => .fault .fuel
  | fuel + 1, symbols => do
    match ← tokenizer.bestSpmPair symbols 0 none with
    | none => .ok symbols
    | some (_, idx) => mergeSpmFuel tokenizer fuel (joinAt idx symbols)

/-- `merge_spm_symbols_by_score` -/
def mergeSpmSymbolsByScore (tokenizer : Tokenizer) (segment : Str) : EngineResult (List Str) :=
  mergeSpmFuel tokenizer (segment.length + 1) (segment.map fun ch => [ch])

/-- `{byte:02X}` -/
def hexUpper (byte : UInt8) : String :=
  let digits := "0123456789ABCDEF".toList
  String.ofList [digits[byte.toNat / 16]?.getD '0', digits[byte.toNat % 16]?.getD '0']

/-- `encode_unknown_symbol_bytes` -/
def encodeUnknownSymbolBytes (tokenizer : Tokenizer) : List UInt8 → EngineResult (List TokenId)
  | [] => .ok []
  | byte :: bytes => do
    let id ← Outcome.okOr
      (.InvalidTokenizerMetadata s!"SPM byte fallback token <0x{hexUpper byte}> is missing")
      ((tokenizer.byteTokenToId.lookup byte).or tokenizer.special.unk)
    let ids ← encodeUnknownSymbolBytes tokenizer bytes
    .ok (id :: ids)

/-- The search over candidate ends in `encode_piece_greedy`: length, id, score. -/
def bestGreedy (tokenizer : Tokenizer) (piece : Str) (byteStart : Nat) :
    List Nat → Option (Nat × TokenId × UInt32) → EngineResult (Option (Nat × TokenId × UInt32))
  | [], best => .ok best
  | byteEnd :: ends, best => do
    let candidate ← Outcome.orPanic (slice piece byteStart byteEnd)
    if contains [spmSpace, spmSpace] candidate then
      bestGreedy tokenizer piece byteStart ends best
    else
      match tokenizer.tokenToId.lookup candidate with
      | none => bestGreedy tokenizer piece byteStart ends best
      | some id => do
        let token ← Outcome.orPanic tokenizer.tokens[id]?
        let len := byteEnd - byteStart
        match best with
        | some (bestLen, _, bestScore) =>
          if len < bestLen || (len == bestLen &&
              (f32Lt token.score bestScore || f32Eq token.score bestScore)) then
            bestGreedy tokenizer piece byteStart ends best
          else
            bestGreedy tokenizer piece byteStart ends (some (len, id, token.score))
        | none => bestGreedy tokenizer piece byteStart ends (some (len, id, token.score))

/-- The `while byte_start < piece.len()` loop of `encode_piece_greedy`. -/
def encodePieceGreedyFrom (tokenizer : Tokenizer) (piece : Str) :
    Nat → Nat → EngineResult (List TokenId)
  | 0, _ => .fault .fuel
  | fuel + 1, byteStart =>
    if byteStart < byteLen piece then do
      let rest ← Outcome.orPanic (sliceFrom piece byteStart)
      let ends := (charIndices rest byteStart).drop 1 ++ [byteLen piece]
      match ← tokenizer.bestGreedy piece byteStart ends none with
      | some (len, id, _) => do
        let later ← encodePieceGreedyFrom tokenizer piece fuel (byteStart + len)
        .ok (id :: later)
      | none => do
        let ch ← Outcome.okOr
          (.InvalidTokenizerMetadata "internal UTF-8 tokenizer cursor error") rest.head?
        let ids ← tokenizer.encodeUnknownSymbolBytes (Utf8.encode [ch])
        let later ← encodePieceGreedyFrom tokenizer piece fuel (byteStart + ch.utf8Size)
        .ok (ids ++ later)
    else
      .ok []

/-- `encode_piece_greedy` -/
def encodePieceGreedy (tokenizer : Tokenizer) (piece : Str) : EngineResult (List TokenId) :=
  encodePieceGreedyFrom tokenizer piece (byteLen piece + 1) 0

/-- The loop over merged symbols in `encode_spm_segment`; `unresolved` collects
the symbols that wait for the greedy match. -/
def resolveSpmSymbols (tokenizer : Tokenizer) (byScore : Bool) :
    List Str → Str → EngineResult (List TokenId)
  | [], unresolved =>
    if unresolved.isEmpty then .ok [] else tokenizer.encodePieceGreedy unresolved
  | symbol :: symbols, unresolved =>
    if byScore && contains [spmSpace, spmSpace] symbol then
      resolveSpmSymbols tokenizer byScore symbols (unresolved ++ symbol)
    else
      match tokenizer.tokenToId.lookup symbol with
      | some id => do
        let ids ← (if unresolved.isEmpty then .ok [] else tokenizer.encodePieceGreedy unresolved)
        let later ← resolveSpmSymbols tokenizer byScore symbols []
        .ok (ids ++ id :: later)
      | none => resolveSpmSymbols tokenizer byScore symbols (unresolved ++ symbol)

/-- `bpe_ranks.is_empty()` -/
def ranksEmpty (tokenizer : Tokenizer) : Bool := tokenizer.bpeRanks.entries.isEmpty

/-- `encode_spm_segment` -/
def encodeSpmSegment (tokenizer : Tokenizer) (segment : Str) : EngineResult (List TokenId) :=
  if segment.isEmpty then
    .ok []
  else if tokenizer.ranksEmpty then do
    let symbols ← tokenizer.mergeSpmSymbolsByScore segment
    tokenizer.resolveSpmSymbols true symbols []
  else do
    let symbols ← tokenizer.bpeRegistry.mergeSymbols (segment.map fun ch => [ch])
    tokenizer.resolveSpmSymbols false symbols []

/-- The dummy meta-space after a special token taken by `encode_piece`. -/
def dummyAfterControl (tokenizer : Tokenizer) (piece tokenText : Str) (byteStart : Nat) :
    EngineResult (List TokenId) := do
  let rest ← Outcome.orPanic (sliceFrom piece byteStart)
  let nextIsControl := (tokenizer.longestControlTokenAt piece byteStart true).isSome
  if tokenizer.config.addSpacePrefix &&
      tokenizer.shouldInsertDummyAfterControl tokenText rest nextIsControl then
    .ok (tokenizer.tokenToId.lookup [spmSpace]).toList
  else
    .ok []

/-- The `while byte_start < piece.len()` loop of `encode_piece`. -/
def encodePieceFrom (tokenizer : Tokenizer) (piece : Str) (parseSpecial : Bool) :
    Nat → Nat → EngineResult (List TokenId)
  | 0, _ => .fault .fuel
  | fuel + 1, byteStart =>
    if byteStart < byteLen piece then
      let taken := if parseSpecial then do
          let (tokenText, tokenLen) ← tokenizer.longestControlTokenAt piece byteStart true
          let id ← tokenizer.tokenToId.lookup tokenText
          some (id, tokenText, tokenLen)
        else none
      match taken with
      | some (id, tokenText, tokenLen) => do
        let dummy ← tokenizer.dummyAfterControl piece tokenText (byteStart + tokenLen)
        let later ← encodePieceFrom tokenizer piece parseSpecial fuel (byteStart + tokenLen)
        .ok (id :: dummy ++ later)
      | none => do
        let next ← (if parseSpecial then tokenizer.nextControlTokenStart piece byteStart true
          else .ok none)
        let byteEnd := next.getD (byteLen piece)
        let segment ← Outcome.orPanic (slice piece byteStart byteEnd)
        let ids ← (if tokenizer.ranksEmpty && !parseSpecial
          then tokenizer.encodePieceGreedy segment
          else tokenizer.encodeSpmSegment segment)
        let later ← encodePieceFrom tokenizer piece parseSpecial fuel byteEnd
        .ok (ids ++ later)
    else
      .ok []

/-- `encode_piece` -/
def encodePiece (tokenizer : Tokenizer) (piece : Str) (parseSpecial : Bool) :
    EngineResult (List TokenId) :=
  if tokenizer.ranksEmpty && !parseSpecial then tokenizer.encodePieceGreedy piece
  else encodePieceFrom tokenizer piece parseSpecial (byteLen piece + 1) 0

/-! ## Both families -/

/-- The ids of a text, without the special tokens around it. -/
def encodeBody (cls : CharClass) (tokenizer : Tokenizer) (text : Str) (parseSpecial : Bool) :
    EngineResult (List TokenId) :=
  match tokenizer.model with
  | .LlamaSpm => do
    let normalized ← tokenizer.normalizeSpmText text parseSpecial
    if normalized.isEmpty then .ok [] else tokenizer.encodePiece normalized parseSpecial
  | .Gpt2Bpe => if text.isEmpty then .ok [] else encodeBpeText cls tokenizer text parseSpecial

/-- `encode` -/
def encode (cls : CharClass) (tokenizer : Tokenizer) (text : Str)
    (addSpecial parseSpecial : Bool) : EngineResult (List TokenId) := do
  let leading :=
    if addSpecial && tokenizer.config.addBos then tokenizer.special.bos.toList else []
  let trailing :=
    if addSpecial && tokenizer.config.addEos then tokenizer.special.eos.toList else []
  let ids ← encodeBody cls tokenizer text parseSpecial
  .ok (leading ++ ids ++ trailing)

end Tokenizer

end CamelidEnterprise

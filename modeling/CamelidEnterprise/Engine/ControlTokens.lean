import CamelidEnterprise.Engine.RoundTrip

/-!
# Camelid Enterprise — control tokens and raw text

What `parse_special` changes. `parse_special_control_only`: a byte-level BPE text in
which no control token is spelled is encoded the same either way. The SentencePiece
family partitions a text only when it parses specials, and without merge ranks it
merges by score then and matches greedily otherwise; both work on one normalized text.

What it does not change is what a raw path looks up: `encodeBody_resolves` names the
texts and bytes that the ids of a raw text are found under, one for one.
-/

namespace CamelidEnterprise

open Foundation Foundation.Text

namespace Tokenizer

variable {tokenizer : Tokenizer}

-- ---------------------------------------------------------------------------
-- Texts without special tokens
-- ---------------------------------------------------------------------------

/-- No control token is spelled in the text. -/
def NoControl (tokenizer : Tokenizer) (text : Str) : Prop :=
  ∀ token ∈ tokenizer.tokens, token.kind = .Control → token.text ≠ [] → ¬token.text <:+: text

/-- Nor is a user-defined one. -/
def NoSpecial (tokenizer : Tokenizer) (text : Str) : Prop :=
  ∀ token ∈ tokenizer.tokens, isPartitionToken true token = true → ¬token.text <:+: text

instance (text : Str) : Decidable (tokenizer.NoControl text) :=
  inferInstanceAs (Decidable (∀ token ∈ tokenizer.tokens, token.kind = .Control →
    token.text ≠ [] → ¬token.text <:+: text))

/-- The text that both SentencePiece paths start from, when no special token is in it. -/
def spmText (tokenizer : Tokenizer) (text : Str) : Str :=
  if text.isEmpty then []
  else
    let spaced := text.map fun ch => if ch = ' ' then spmSpace else ch
    if tokenizer.config.addSpacePrefix then spmSpace :: spaced else spaced

/-- Where no control token is spelled, the partition is the same either way. -/
theorem longestControlToken_noControl {before rest : Str}
    (h : tokenizer.NoControl (before ++ rest)) :
    tokenizer.longestControlToken true rest = tokenizer.longestControlToken false rest := by
  unfold longestControlToken
  congr 1
  refine List.filter_congr fun token htoken => ?_
  by_cases hfits : token.text.isPrefixOf rest = true
  · rw [hfits, Bool.and_true, Bool.and_true]
    unfold isPartitionToken
    by_cases hcontrol : token.kind = .Control
    · have hempty : token.text = [] := by
        by_contra hne
        obtain ⟨after, hafter⟩ := List.isPrefixOf_iff_prefix.mp hfits
        exact h token htoken hcontrol hne ⟨before, after, by rw [List.append_assoc, hafter]⟩
      simp [hempty]
    · have hkind : (token.kind == .Control) = false := beq_eq_false_iff_ne.mpr hcontrol
      simp only [hkind, Bool.and_false]
  · have hno : token.text.isPrefixOf rest = false := Bool.eq_false_iff.mpr hfits
    rw [hno, Bool.and_false, Bool.and_false]

theorem longestControlTokenAt_noControl {text : Str} (h : tokenizer.NoControl text)
    (byteStart : Nat) :
    tokenizer.longestControlTokenAt text byteStart true =
      tokenizer.longestControlTokenAt text byteStart false := by
  unfold longestControlTokenAt
  cases hrest : sliceFrom text byteStart with
  | none => rfl
  | some rest =>
    obtain ⟨before, htext, -⟩ := sliceFrom_eq_some.mp hrest
    show Option.bind (tokenizer.longestControlToken true rest) _ =
      Option.bind (tokenizer.longestControlToken false rest) _
    rw [longestControlToken_noControl (htext ▸ h)]

/-- Each pass of the byte-level loop does the same. -/
theorem encodeBpeFrom_noControl {cls : CharClass} {text : Str} (h : tokenizer.NoControl text)
    (fuel byteStart : Nat) :
    tokenizer.encodeBpeFrom cls text true fuel byteStart =
      tokenizer.encodeBpeFrom cls text false fuel byteStart := by
  have hat : ∀ byteStart, tokenizer.controlIdAt text byteStart true =
      tokenizer.controlIdAt text byteStart false := by
    intro byteStart
    unfold controlIdAt
    rw [longestControlTokenAt_noControl h]
  have hnext : ∀ byteStart, tokenizer.nextControlTokenStart text byteStart true =
      tokenizer.nextControlTokenStart text byteStart false := by
    intro byteStart
    unfold nextControlTokenStart
    simp only [longestControlTokenAt_noControl h]
  induction fuel generalizing byteStart with
  | zero => rfl
  | succ fuel ih =>
    rw [encodeBpeFrom, encodeBpeFrom]
    simp only [hat, hnext, ih]

-- ---------------------------------------------------------------------------
-- SentencePiece without special tokens
-- ---------------------------------------------------------------------------

theorem longestControlToken_noSpecial {before rest : Str}
    (h : tokenizer.NoSpecial (before ++ rest)) :
    tokenizer.longestControlToken true rest = none := by
  cases hfound : tokenizer.longestControlToken true rest with
  | none => rfl
  | some token =>
    obtain ⟨hcandidate, -⟩ := List.mem_filter.mp (maxByKey_mem hfound)
    have hkind := (Bool.and_eq_true_iff.mp (List.mem_filter.mp (maxByKey_mem hfound)).2).1
    obtain ⟨-, -, after, hafter⟩ := longestControlToken_spec hfound
    exact absurd ⟨before, after, by rw [List.append_assoc, hafter]⟩ (h token hcandidate hkind)

theorem longestControlTokenAt_noSpecial {text : Str} (h : tokenizer.NoSpecial text)
    (byteStart : Nat) : tokenizer.longestControlTokenAt text byteStart true = none := by
  unfold longestControlTokenAt
  cases hrest : sliceFrom text byteStart with
  | none => rfl
  | some rest =>
    obtain ⟨before, htext, -⟩ := sliceFrom_eq_some.mp hrest
    show Option.bind (tokenizer.longestControlToken true rest) _ = none
    rw [longestControlToken_noSpecial (htext ▸ h)]
    rfl

/-- Nothing to put a dummy after: the normalization copies the text. -/
theorem addDummyFrom_noSpecial {text before rest : Str} (h : tokenizer.NoSpecial text)
    (htext : text = before ++ rest) {fuel : Nat} (hfuel : rest.length < fuel) :
    tokenizer.addDummyFrom text fuel (byteLen before) = .ok rest := by
  induction rest generalizing before fuel with
  | nil =>
    obtain ⟨fuel, rfl⟩ := Nat.exists_eq_add_of_lt hfuel
    rw [addDummyFrom, if_neg (by rw [htext, List.append_nil]; omega)]
  | cons ch rest ih =>
    obtain ⟨fuel, rfl⟩ := Nat.exists_eq_add_of_lt (Nat.zero_lt_of_lt hfuel)
    have hmore : byteLen before < byteLen text := by
      have hpos := ch.utf8Size_pos
      rw [htext, byteLen_append, byteLen_cons]
      omega
    have hchar : expectChar text (byteLen before) = .ok ch := by
      unfold expectChar nextChar
      rw [htext, sliceFrom_append]
      rfl
    have hbefore : byteLen before + ch.utf8Size = byteLen (before ++ [ch]) := by simp
    rw [addDummyFrom, if_pos hmore, longestControlTokenAt_noSpecial h]
    dsimp only
    rw [hchar, Outcome.ok_bind, hbefore,
      ih (by rw [htext, List.append_assoc]; rfl) (by simp at hfuel ⊢; omega), Outcome.ok_bind]

theorem addDummyPrefix_noSpecial {text : Str} (h : tokenizer.NoSpecial text) :
    tokenizer.addDummyPrefixAfterControlTokens text = .ok text := by
  unfold addDummyPrefixAfterControlTokens
  split
  · rfl
  · have hcopy := addDummyFrom_noSpecial h (List.nil_append text).symm
      (Nat.lt_succ_of_le (length_le_byteLen text))
    rw [byteLen_nil] at hcopy
    exact hcopy

theorem normalizeSpmText_noSpecial {text : Str} (htext : tokenizer.NoSpecial text)
    (hspm : tokenizer.NoSpecial (tokenizer.spmText text)) (parseSpecial : Bool) :
    tokenizer.normalizeSpmText text parseSpecial = .ok (tokenizer.spmText text) := by
  unfold normalizeSpmText
  unfold spmText at hspm ⊢
  by_cases hempty : text.isEmpty = true
  · rw [if_pos hempty, if_pos hempty]
  · rw [if_neg hempty] at hspm ⊢
    rw [if_neg hempty, longestControlTokenAt_noSpecial htext]
    dsimp only at hspm ⊢
    rw [Option.isSome_none, Bool.and_false, Bool.not_false, Bool.and_true]
    cases parseSpecial with
    | true => rw [if_pos rfl]
    | false =>
      rw [if_neg Bool.false_ne_true]
      exact addDummyPrefix_noSpecial hspm

/-- Nothing to partition at: the piece is one segment. -/
theorem encodePieceFrom_noSpecial {piece : Str} (hne : piece ≠ []) (parseSpecial : Bool)
    (h : parseSpecial = true → tokenizer.NoSpecial piece) :
    tokenizer.encodePieceFrom piece parseSpecial (byteLen piece + 1) 0 =
      (if tokenizer.ranksEmpty && !parseSpecial then tokenizer.encodePieceGreedy piece
        else tokenizer.encodeSpmSegment piece) := by
  have hpos : 0 < byteLen piece := Nat.pos_of_ne_zero fun hzero => hne (byteLen_eq_zero.mp hzero)
  have hslice : slice piece 0 (byteLen piece) = some piece :=
    slice_eq_some.mpr ⟨[], [], by simp, rfl, by simp⟩
  have hnext : (if parseSpecial then tokenizer.nextControlTokenStart piece 0 true
      else .ok none : EngineResult (Option Nat)) = .ok none := by
    cases parseSpecial with
    | false => rfl
    | true =>
      have hnone : (charIndices piece 0).find? (fun idx =>
          (tokenizer.longestControlTokenAt piece idx true).isSome) = none := by
        rw [List.find?_eq_none]
        intro idx _
        rw [longestControlTokenAt_noSpecial (h rfl)]
        exact Bool.false_ne_true
      have hwhole : sliceFrom piece 0 = some piece := sliceFrom_append [] piece
      rw [if_pos rfl]
      unfold nextControlTokenStart
      rw [hwhole]
      exact congrArg Outcome.ok hnone
  have hdone : tokenizer.encodePieceFrom piece parseSpecial (byteLen piece) (byteLen piece) =
      .ok [] := by
    obtain ⟨fuel, hfuel⟩ := Nat.exists_eq_add_of_lt hpos
    generalize hstart : byteLen piece = stop at hfuel ⊢
    rw [hfuel, encodePieceFrom, if_neg (by omega)]
  rw [encodePieceFrom, if_pos hpos]
  dsimp only
  split
  · -- no special token is there to be taken
    rename_i htaken
    cases parseSpecial with
    | true =>
      rw [if_pos rfl, longestControlTokenAt_noSpecial (h rfl)] at htaken
      cases htaken
    | false => cases htaken
  · rw [hnext, Outcome.ok_bind, Option.getD_none, hslice]
    rw [show (Outcome.orPanic (some piece) : EngineResult Str) = .ok piece from rfl,
      Outcome.ok_bind, hdone]
    generalize (if tokenizer.ranksEmpty && !parseSpecial then tokenizer.encodePieceGreedy piece
      else tokenizer.encodeSpmSegment piece) = segmentIds
    cases segmentIds with
    | ok ids => simp
    | err error => rfl
    | fault kind => rfl

theorem encodePiece_noSpecial {piece : Str} (hne : piece ≠ []) (parseSpecial : Bool)
    (h : parseSpecial = true → tokenizer.NoSpecial piece) :
    tokenizer.encodePiece piece parseSpecial =
      if tokenizer.ranksEmpty && !parseSpecial then tokenizer.encodePieceGreedy piece
      else tokenizer.encodeSpmSegment piece := by
  unfold encodePiece
  split
  · rfl
  · rename_i hmerges
    rw [encodePieceFrom_noSpecial hne parseSpecial h, if_neg hmerges]

/-- A SentencePiece text without special tokens is merged, or matched greedily where
there are no merge ranks and no specials are parsed. -/
theorem encodeBody_noSpecial {cls : CharClass} (hmodel : tokenizer.model = .LlamaSpm) {text : Str}
    (htext : tokenizer.NoSpecial text) (hspm : tokenizer.NoSpecial (tokenizer.spmText text))
    (parseSpecial : Bool) :
    tokenizer.encodeBody cls text parseSpecial =
      if tokenizer.ranksEmpty && !parseSpecial then tokenizer.encodePieceGreedy (tokenizer.spmText text)
      else tokenizer.encodeSpmSegment (tokenizer.spmText text) := by
  simp only [encodeBody, hmodel]
  rw [normalizeSpmText_noSpecial htext hspm, Outcome.ok_bind]
  by_cases hempty : (tokenizer.spmText text).isEmpty = true
  · rw [if_pos hempty, List.isEmpty_iff.mp hempty]
    split
    · rfl
    · rfl
  · rw [if_neg hempty]
    exact encodePiece_noSpecial (fun hnil => hempty (by rw [hnil]; rfl)) parseSpecial fun _ => hspm

-- ---------------------------------------------------------------------------
-- Both families
-- ---------------------------------------------------------------------------

/-- The ids of a text with the special tokens around it. -/
def wrap (tokenizer : Tokenizer) (addSpecial : Bool) (ids : List TokenId) : List TokenId :=
  (if addSpecial && tokenizer.config.addBos then tokenizer.special.bos.toList else []) ++ ids ++
    (if addSpecial && tokenizer.config.addEos then tokenizer.special.eos.toList else [])

theorem encode_eq (cls : CharClass) (text : Str) (addSpecial parseSpecial : Bool) :
    tokenizer.encode cls text addSpecial parseSpecial =
      (tokenizer.encodeBody cls text parseSpecial >>= fun ids => .ok (tokenizer.wrap addSpecial ids)) :=
  rfl

/-- **What `parse_special` is about.** Where no control token is spelled it makes no
difference to a byte-level BPE text, nor to a SentencePiece text that spells no special
token at all and is merged by rank. Without merge ranks a SentencePiece text that is
parsed for specials is merged by score, and a raw one is matched greedily. -/
theorem parse_special_control_only (cls : CharClass) (tokenizer : Tokenizer) (text : Str)
    (addSpecial : Bool) (hcontrol : tokenizer.NoControl text) :
    (tokenizer.model = .Gpt2Bpe →
      tokenizer.encode cls text addSpecial true = tokenizer.encode cls text addSpecial false) ∧
    (tokenizer.model = .LlamaSpm → tokenizer.NoSpecial text →
      tokenizer.NoSpecial (tokenizer.spmText text) →
      (tokenizer.ranksEmpty = false →
        tokenizer.encode cls text addSpecial true = tokenizer.encode cls text addSpecial false) ∧
      (tokenizer.ranksEmpty = true →
        tokenizer.encode cls text addSpecial true =
          (tokenizer.encodeSpmSegment (tokenizer.spmText text) >>= fun ids =>
            .ok (tokenizer.wrap addSpecial ids)) ∧
        tokenizer.encode cls text addSpecial false =
          (tokenizer.encodePieceGreedy (tokenizer.spmText text) >>= fun ids =>
            .ok (tokenizer.wrap addSpecial ids)))) := by
  constructor
  · intro hmodel
    have hbody : tokenizer.encodeBody cls text true = tokenizer.encodeBody cls text false := by
      simp only [encodeBody, hmodel]
      unfold encodeBpeText
      rw [encodeBpeFrom_noControl hcontrol]
    rw [encode_eq, encode_eq, hbody]
  · intro hmodel htext hspm
    have hbody : ∀ parseSpecial, tokenizer.encodeBody cls text parseSpecial = _ :=
      encodeBody_noSpecial hmodel htext hspm
    constructor
    · intro hranks
      rw [encode_eq, encode_eq, hbody, hbody, hranks]
      rfl
    · intro hranks
      rw [encode_eq, encode_eq, hbody, hbody, hranks]
      exact ⟨rfl, rfl⟩

/-- A text with a user-defined token in it, of a byte-level vocabulary. -/
theorem parse_special_markup :
    ∃ tokenizer, Tokenizer.fromGguf (userDefinedFile "<x>") = .ok tokenizer ∧
      tokenizer.encode asciiClass "a<x>".toList true true =
        tokenizer.encode asciiClass "a<x>".toList true false ∧
      tokenizer.encode asciiClass "a<x>".toList true false = .ok [0, 1] := by
  have hrun : (Tokenizer.fromGguf (userDefinedFile "<x>") >>= fun tokenizer =>
      (.ok (tokenizer.model, decide (tokenizer.NoControl "a<x>".toList),
        tokenizer.encode asciiClass "a<x>".toList true false) : EngineResult _)) =
      .ok (.Gpt2Bpe, true, .ok [0, 1]) := by
    decide +kernel
  obtain ⟨tokenizer, hfile, hrun⟩ := Outcome.bind_eq_ok.mp hrun
  obtain ⟨hmodel, hrest⟩ := Prod.mk.inj (Outcome.ok.inj hrun)
  obtain ⟨hcontrol, hencode⟩ := Prod.mk.inj hrest
  exact ⟨tokenizer, hfile,
    (parse_special_control_only asciiClass tokenizer _ true (of_decide_eq_true hcontrol)).1 hmodel,
    hencode⟩

/-- A SentencePiece vocabulary of normal tokens, in which `bc` scores above `ab`. -/
def scoredFile : Gguf.GgufFile where
  version := 3
  tensorCount := 0
  metadataCount := 3
  alignment := 32
  dataStartOffset := 0
  metadata :=
    ((∅ : Gguf.Metadata).insert "tokenizer.ggml.model".toList (.String "llama".toList)).insert
      "tokenizer.ggml.tokens".toList
        (.Array [.String [spmSpace], .String ['a'], .String ['b'], .String ['c'],
          .String ['a', 'b'], .String ['b', 'c']])
    |>.insert "tokenizer.ggml.scores".toList
      (.Array [.F32 0, .F32 0, .F32 0, .F32 0, .F32 0, .F32 0x3F800000])
  tensors := []

/-- There is no control token in this vocabulary, and still `parse_special` decides
how the text `abc` is encoded. -/
theorem parse_special_scored : ¬∀ (cls : CharClass) (file : Gguf.GgufFile) (tokenizer : Tokenizer)
    (text : Str) (addSpecial : Bool), Tokenizer.fromGguf file = .ok tokenizer →
      tokenizer.NoControl text →
      tokenizer.encode cls text addSpecial true = tokenizer.encode cls text addSpecial false := by
  intro hall
  have hrun : (Tokenizer.fromGguf scoredFile >>= fun tokenizer =>
      (.ok (decide (tokenizer.NoControl ['a', 'b', 'c']),
        tokenizer.encode asciiClass ['a', 'b', 'c'] false true,
        tokenizer.encode asciiClass ['a', 'b', 'c'] false false) : EngineResult _)) =
      .ok (true, .ok [0, 1, 5], .ok [0, 4, 3]) := by
    decide +kernel
  obtain ⟨tokenizer, hfile, hrun⟩ := Outcome.bind_eq_ok.mp hrun
  obtain ⟨hcontrol, hrest⟩ := Prod.mk.inj (Outcome.ok.inj hrun)
  obtain ⟨hparsed, hraw⟩ := Prod.mk.inj hrest
  have hsame := hall asciiClass scoredFile tokenizer _ false hfile (of_decide_eq_true hcontrol)
  rw [hparsed, hraw] at hsame
  exact absurd hsame (by decide)

/-- `<unk>`, `<s>`, the control token `</s>` and the letter `a`. -/
def endOfSequenceFile : Gguf.GgufFile where
  version := 3
  tensorCount := 0
  metadataCount := 3
  alignment := 32
  dataStartOffset := 0
  metadata :=
    ((∅ : Gguf.Metadata).insert "tokenizer.ggml.model".toList (.String "llama".toList)).insert
      "tokenizer.ggml.tokens".toList
        (.Array [.String "<unk>".toList, .String "<s>".toList, .String "</s>".toList,
          .String [spmSpace, 'a']])
    |>.insert "tokenizer.ggml.token_type".toList (.Array [.I32 2, .I32 3, .I32 3, .I32 1])
  tensors := []

-- ---------------------------------------------------------------------------
-- What a raw path takes ids for
-- ---------------------------------------------------------------------------

/-- A vocabulary text in the text, or a byte that none covers. -/
inductive RawHit
  | text (s : Str)
  | byte (b : UInt8)
deriving DecidableEq, Repr

/-- The id that is taken for it. -/
def hitId (tokenizer : Tokenizer) : RawHit → Option TokenId
  | .text s => tokenizer.tokenToId.lookup s
  | .byte b => (tokenizer.byteTokenToId.lookup b).or tokenizer.special.unk

/-- An id of a control token. -/
def isControl (tokenizer : Tokenizer) (id : TokenId) : Bool :=
  tokenizer.tokens[id]?.any fun token => token.kind == .Control

/-- The vocabulary has it for a control token. -/
def controlHit (tokenizer : Tokenizer) (hit : RawHit) : Bool :=
  (tokenizer.hitId hit).any tokenizer.isControl

/-- The greedy matches of a piece, from `byteStart` on. -/
def greedyHitsFrom (tokenizer : Tokenizer) (piece : Str) :
    Nat → Nat → EngineResult (List RawHit)
  | 0, _ => .fault .fuel
  | fuel + 1, byteStart =>
    if byteStart < byteLen piece then do
      let rest ← Outcome.orPanic (sliceFrom piece byteStart)
      match ← tokenizer.bestGreedy piece byteStart
          ((charIndices rest byteStart).drop 1 ++ [byteLen piece]) none with
      | some (len, _, _) => do
        let candidate ← Outcome.orPanic (slice piece byteStart (byteStart + len))
        let later ← greedyHitsFrom tokenizer piece fuel (byteStart + len)
        .ok (.text candidate :: later)
      | none => do
        let ch ← Outcome.orPanic rest.head?
        let later ← greedyHitsFrom tokenizer piece fuel (byteStart + ch.utf8Size)
        .ok ((Utf8.encode [ch]).map .byte ++ later)
    else
      .ok []

def greedyHits (tokenizer : Tokenizer) (piece : Str) : EngineResult (List RawHit) :=
  tokenizer.greedyHitsFrom piece (byteLen piece + 1) 0

/-- Symbols merged by rank: those in the vocabulary, and greedy matches of the rest. -/
def rankedHits (tokenizer : Tokenizer) : List Str → Str → EngineResult (List RawHit)
  | [], unresolved => if unresolved.isEmpty then .ok [] else tokenizer.greedyHits unresolved
  | symbol :: symbols, unresolved =>
    if (tokenizer.tokenToId.lookup symbol).isSome then do
      let hits ← (if unresolved.isEmpty then .ok [] else tokenizer.greedyHits unresolved)
      let later ← rankedHits tokenizer symbols []
      .ok (hits ++ .text symbol :: later)
    else rankedHits tokenizer symbols (unresolved ++ symbol)

/-- The symbols that the segments of a byte-level text are merged to. -/
def segmentHits (tokenizer : Tokenizer) : List Str → EngineResult (List RawHit)
  | [] => .ok []
  | segment :: segments => do
    let symbols ← (if segment.isEmpty then .ok []
      else tokenizer.bpeRegistry.mergeSymbols ((Utf8.encode segment).map fun byte => [bpeByteToChar byte]))
    let later ← segmentHits tokenizer segments
    .ok (symbols.map .text ++ later)

/-- User-defined tokens of a byte-level text, and the merged symbols between them. -/
def bpeHitsFrom (cls : CharClass) (tokenizer : Tokenizer) (text : Str) :
    Nat → Nat → EngineResult (List RawHit)
  | 0, _ => .fault .fuel
  | fuel + 1, byteStart =>
    if byteStart < byteLen text then
      match tokenizer.controlIdAt text byteStart false with
      | some (_, tokenLen) => do
        let special ← Outcome.orPanic (slice text byteStart (byteStart + tokenLen))
        let later ← bpeHitsFrom cls tokenizer text fuel (byteStart + tokenLen)
        .ok (.text special :: later)
      | none => do
        let next ← tokenizer.nextControlTokenStart text byteStart false
        let byteEnd := next.getD (byteLen text)
        let piece ← Outcome.orPanic (slice text byteStart byteEnd)
        let segments ← bpePretokenizeWith cls piece tokenizer.bpePreTokenizer.digitGroupMax
          tokenizer.bpePreTokenizer.foldMarks
        let hits ← tokenizer.segmentHits segments
        let later ← bpeHitsFrom cls tokenizer text fuel byteEnd
        .ok (hits ++ later)
    else
      .ok []

/-- How raw text is cut into what the vocabulary is asked for. -/
def rawHits (cls : CharClass) (tokenizer : Tokenizer) (text : Str) : EngineResult (List RawHit) :=
  match tokenizer.model with
  | .LlamaSpm => do
    let normalized ← tokenizer.normalizeSpmText text false
    if tokenizer.ranksEmpty then tokenizer.greedyHits normalized
    else do
      let symbols ← tokenizer.bpeRegistry.mergeSymbols (normalized.map fun ch => [ch])
      tokenizer.rankedHits symbols []
  | .Gpt2Bpe => bpeHitsFrom cls tokenizer text (byteLen text + 1) 0

/-- The ids are those of the hits, one for one. -/
def Resolves (tokenizer : Tokenizer) (hits : List RawHit) (ids : List TokenId) : Prop :=
  List.Forall₂ (fun hit id => tokenizer.hitId hit = some id) hits ids

theorem Resolves.append {hits hits' : List RawHit} {ids ids' : List TokenId}
    (h : tokenizer.Resolves hits ids) (h' : tokenizer.Resolves hits' ids') :
    tokenizer.Resolves (hits ++ hits') (ids ++ ids') :=
  List.rel_append h h'

/-- The best candidate so far is a vocabulary text of the piece. -/
theorem bestGreedy_spec {piece : Str} {byteStart : Nat} {ends : List Nat}
    {best result : Option (Nat × TokenId × UInt32)}
    (hbest : ∀ len id score, best = some (len, id, score) →
      ∃ s, slice piece byteStart (byteStart + len) = some s ∧ tokenizer.tokenToId.lookup s = some id)
    (h : tokenizer.bestGreedy piece byteStart ends best = .ok result) :
    ∀ len id score, result = some (len, id, score) →
      ∃ s, slice piece byteStart (byteStart + len) = some s ∧
        tokenizer.tokenToId.lookup s = some id := by
  induction ends generalizing best with
  | nil =>
    obtain rfl := Outcome.ok.inj h
    exact hbest
  | cons byteEnd ends ih =>
    rw [bestGreedy] at h
    obtain ⟨candidate, hcandidate, h⟩ := Outcome.bind_eq_ok.mp h
    split at h
    · exact ih hbest h
    split at h
    · exact ih hbest h
    rename_i id hid
    obtain ⟨token, -, h⟩ := Outcome.bind_eq_ok.mp h
    -- a candidate that takes the lead is the slice up to its own end
    have hslice := Outcome.orPanic_eq_ok.mp hcandidate
    have hnew : ∀ len id' score, some (byteEnd - byteStart, id, token.score) = some (len, id', score) →
        ∃ s, slice piece byteStart (byteStart + len) = some s ∧
          tokenizer.tokenToId.lookup s = some id' := by
      intro len id' score heq
      obtain ⟨rfl, hrest⟩ := Prod.mk.inj (Option.some.inj heq)
      obtain ⟨rfl, -⟩ := Prod.mk.inj hrest
      obtain ⟨before, after, -, hbefore, hend⟩ := slice_eq_some.mp hslice
      have hstop : byteStart + (byteEnd - byteStart) = byteEnd := by omega
      rw [hstop]
      exact ⟨candidate, hslice, hid⟩
    dsimp only at h
    split at h
    · split at h
      · exact ih hbest h
      · exact ih hnew h
    · exact ih hnew h

theorem encodeUnknownSymbolBytes_resolves {bytes : List UInt8} {ids : List TokenId}
    (h : tokenizer.encodeUnknownSymbolBytes bytes = .ok ids) :
    tokenizer.Resolves (bytes.map .byte) ids := by
  induction bytes generalizing ids with
  | nil =>
    obtain rfl := Outcome.ok.inj h
    exact .nil
  | cons byte bytes ih =>
    obtain ⟨id, hid, h⟩ := Outcome.bind_eq_ok.mp h
    obtain ⟨later, hlater, h⟩ := Outcome.bind_eq_ok.mp h
    obtain rfl := Outcome.ok.inj h
    exact .cons (Outcome.okOr_eq_ok.mp hid) (ih hlater)

theorem encodePieceGreedyFrom_resolves {piece : Str} {fuel byteStart : Nat} {ids : List TokenId}
    (h : tokenizer.encodePieceGreedyFrom piece fuel byteStart = .ok ids) :
    ∃ hits, tokenizer.greedyHitsFrom piece fuel byteStart = .ok hits ∧ tokenizer.Resolves hits ids := by
  induction fuel generalizing byteStart ids with
  | zero => exact absurd h (by simp [encodePieceGreedyFrom])
  | succ fuel ih =>
    rw [encodePieceGreedyFrom] at h
    rw [greedyHitsFrom]
    split at h
    · rename_i hmore
      rw [if_pos hmore]
      obtain ⟨rest, hrest, h⟩ := Outcome.bind_eq_ok.mp h
      obtain ⟨best, hbest, h⟩ := Outcome.bind_eq_ok.mp h
      rw [hrest, Outcome.ok_bind, hbest, Outcome.ok_bind]
      rcases best with _ | ⟨len, id, score⟩
      · dsimp only at h ⊢
        obtain ⟨ch, hch, h⟩ := Outcome.bind_eq_ok.mp h
        obtain ⟨own, hown, h⟩ := Outcome.bind_eq_ok.mp h
        obtain ⟨later, hlater, h⟩ := Outcome.bind_eq_ok.mp h
        obtain rfl := Outcome.ok.inj h
        obtain ⟨hits, hhits, hresolves⟩ := ih hlater
        refine ⟨_, ?_, (encodeUnknownSymbolBytes_resolves hown).append hresolves⟩
        rw [Outcome.okOr_eq_ok.mp hch, Outcome.orPanic, Outcome.ok_bind, hhits, Outcome.ok_bind]
      · dsimp only at h ⊢
        obtain ⟨later, hlater, h⟩ := Outcome.bind_eq_ok.mp h
        obtain rfl := Outcome.ok.inj h
        obtain ⟨hits, hhits, hresolves⟩ := ih hlater
        obtain ⟨s, hslice, hid⟩ := bestGreedy_spec (by simp) hbest len id score rfl
        refine ⟨.text s :: hits, ?_, .cons hid hresolves⟩
        rw [hslice, Outcome.orPanic, Outcome.ok_bind, hhits, Outcome.ok_bind]
    · rename_i hdone
      obtain rfl := Outcome.ok.inj h
      rw [if_neg hdone]
      exact ⟨[], rfl, .nil⟩

theorem encodePieceGreedy_resolves {piece : Str} {ids : List TokenId}
    (h : tokenizer.encodePieceGreedy piece = .ok ids) :
    ∃ hits, tokenizer.greedyHits piece = .ok hits ∧ tokenizer.Resolves hits ids :=
  encodePieceGreedyFrom_resolves h

theorem resolveSpmSymbols_resolves {symbols : List Str} {unresolved : Str} {ids : List TokenId}
    (h : tokenizer.resolveSpmSymbols false symbols unresolved = .ok ids) :
    ∃ hits, tokenizer.rankedHits symbols unresolved = .ok hits ∧ tokenizer.Resolves hits ids := by
  -- what waits is matched greedily, or there is nothing
  have hwaiting : ∀ {unresolved : Str} {ids : List TokenId},
      (if unresolved.isEmpty then .ok [] else tokenizer.encodePieceGreedy unresolved) = .ok ids →
      ∃ hits, (if unresolved.isEmpty then .ok [] else tokenizer.greedyHits unresolved) = .ok hits ∧
        tokenizer.Resolves hits ids := by
    intro unresolved ids hids
    split at hids
    · rename_i hempty
      obtain rfl := Outcome.ok.inj hids
      exact ⟨[], by rw [if_pos hempty], .nil⟩
    · rename_i hempty
      obtain ⟨hits, hhits, hresolves⟩ := encodePieceGreedy_resolves hids
      exact ⟨hits, by rw [if_neg hempty, hhits], hresolves⟩
  induction symbols generalizing unresolved ids with
  | nil => exact hwaiting h
  | cons symbol symbols ih =>
    rw [resolveSpmSymbols, Bool.false_and, if_neg Bool.false_ne_true] at h
    rw [rankedHits]
    split at h
    · rename_i id hid
      obtain ⟨own, hown, h⟩ := Outcome.bind_eq_ok.mp h
      obtain ⟨later, hlater, h⟩ := Outcome.bind_eq_ok.mp h
      obtain rfl := Outcome.ok.inj h
      obtain ⟨hits, hhits, hresolves⟩ := hwaiting hown
      obtain ⟨hits', hhits', hresolves'⟩ := ih hlater
      refine ⟨hits ++ .text symbol :: hits', ?_, hresolves.append (.cons hid hresolves')⟩
      rw [hid, Option.isSome_some, if_pos rfl, hhits, Outcome.ok_bind, hhits', Outcome.ok_bind]
    · rename_i hnone
      obtain ⟨hits, hhits, hresolves⟩ := ih h
      refine ⟨hits, ?_, hresolves⟩
      rw [hnone, Option.isSome_none, if_neg Bool.false_ne_true, hhits]

theorem symbolIds_resolves {symbols : List Str} {ids : List TokenId}
    (h : tokenizer.symbolIds symbols = .ok ids) :
    tokenizer.Resolves (symbols.map .text) ids := by
  induction symbols generalizing ids with
  | nil =>
    obtain rfl := Outcome.ok.inj h
    exact .nil
  | cons symbol symbols ih =>
    obtain ⟨id, hid, h⟩ := Outcome.bind_eq_ok.mp h
    obtain ⟨later, hlater, h⟩ := Outcome.bind_eq_ok.mp h
    obtain rfl := Outcome.ok.inj h
    exact .cons (Outcome.okOr_eq_ok.mp hid) (ih hlater)

theorem encodeBpeSegments_resolves {segments : List Str} {ids : List TokenId}
    (h : tokenizer.encodeBpeSegments segments = .ok ids) :
    ∃ hits, tokenizer.segmentHits segments = .ok hits ∧ tokenizer.Resolves hits ids := by
  induction segments generalizing ids with
  | nil =>
    obtain rfl := Outcome.ok.inj h
    exact ⟨[], rfl, .nil⟩
  | cons segment segments ih =>
    obtain ⟨own, hown, h⟩ := Outcome.bind_eq_ok.mp h
    obtain ⟨later, hlater, h⟩ := Outcome.bind_eq_ok.mp h
    obtain rfl := Outcome.ok.inj h
    obtain ⟨hits, hhits, hresolves⟩ := ih hlater
    rw [segmentHits]
    unfold encodeBpeSegment at hown
    split at hown
    · rename_i hempty
      obtain rfl := Outcome.ok.inj hown
      exact ⟨hits, by rw [if_pos hempty, Outcome.ok_bind, hhits, Outcome.ok_bind]; rfl, hresolves⟩
    · rename_i hempty
      obtain ⟨symbols, hsymbols, hids⟩ := Outcome.bind_eq_ok.mp hown
      refine ⟨symbols.map .text ++ hits, ?_, (symbolIds_resolves hids).append hresolves⟩
      rw [if_neg hempty, hsymbols, Outcome.ok_bind, hhits, Outcome.ok_bind]

/-- A special token is taken under the text it has in the text. -/
theorem controlIdAt_spec {text : Str} {byteStart : Nat} {includeControl : Bool} {id : TokenId}
    {tokenLen : Nat} (h : tokenizer.controlIdAt text byteStart includeControl = some (id, tokenLen)) :
    ∃ special, slice text byteStart (byteStart + tokenLen) = some special ∧
      tokenizer.tokenToId.lookup special = some id := by
  obtain ⟨⟨special, len⟩, hat, h⟩ := Option.bind_eq_some_iff.mp h
  obtain ⟨id', hid, hpair⟩ := Option.bind_eq_some_iff.mp h
  obtain ⟨rfl, rfl⟩ := Prod.mk.inj (Option.some.inj hpair)
  obtain ⟨rest, hrest, hat⟩ := Option.bind_eq_some_iff.mp hat
  obtain ⟨token, hlongest, hat⟩ := Option.bind_eq_some_iff.mp hat
  obtain ⟨rfl, rfl⟩ := Prod.mk.inj (Option.some.inj hat)
  obtain ⟨before, rfl, hbefore⟩ := sliceFrom_eq_some.mp hrest
  obtain ⟨-, -, after, rfl⟩ := longestControlToken_spec hlongest
  refine ⟨token.text, slice_eq_some.mpr ⟨before, after, by rw [List.append_assoc], hbefore, ?_⟩, hid⟩
  rw [hbefore]

theorem encodeBpeFrom_resolves {cls : CharClass} {text : Str} {fuel byteStart : Nat}
    {ids : List TokenId} (h : tokenizer.encodeBpeFrom cls text false fuel byteStart = .ok ids) :
    ∃ hits, tokenizer.bpeHitsFrom cls text fuel byteStart = .ok hits ∧
      tokenizer.Resolves hits ids := by
  induction fuel generalizing byteStart ids with
  | zero => exact absurd h (by simp [encodeBpeFrom])
  | succ fuel ih =>
    rw [encodeBpeFrom] at h
    rw [bpeHitsFrom]
    split at h
    · rename_i hmore
      rw [if_pos hmore]
      rcases hcontrol : tokenizer.controlIdAt text byteStart false with _ | ⟨id, tokenLen⟩
      · rw [hcontrol] at h
        dsimp only at h ⊢
        obtain ⟨next, hnext, h⟩ := Outcome.bind_eq_ok.mp h
        obtain ⟨piece, hpiece, h⟩ := Outcome.bind_eq_ok.mp h
        obtain ⟨segments, hsegments, h⟩ := Outcome.bind_eq_ok.mp h
        obtain ⟨own, hown, h⟩ := Outcome.bind_eq_ok.mp h
        obtain ⟨later, hlater, h⟩ := Outcome.bind_eq_ok.mp h
        obtain rfl := Outcome.ok.inj h
        obtain ⟨hits, hhits, hresolves⟩ := encodeBpeSegments_resolves hown
        obtain ⟨hits', hhits', hresolves'⟩ := ih hlater
        refine ⟨hits ++ hits', ?_, hresolves.append hresolves'⟩
        rw [hnext, Outcome.ok_bind, hpiece, Outcome.ok_bind, hsegments, Outcome.ok_bind, hhits,
          Outcome.ok_bind, hhits', Outcome.ok_bind]
      · rw [hcontrol] at h
        dsimp only at h ⊢
        obtain ⟨later, hlater, h⟩ := Outcome.bind_eq_ok.mp h
        obtain rfl := Outcome.ok.inj h
        obtain ⟨hits, hhits, hresolves⟩ := ih hlater
        obtain ⟨special, hslice, hid⟩ := controlIdAt_spec hcontrol
        refine ⟨.text special :: hits, ?_, .cons hid hresolves⟩
        rw [hslice, Outcome.orPanic, Outcome.ok_bind, hhits, Outcome.ok_bind]
    · rename_i hdone
      obtain rfl := Outcome.ok.inj h
      rw [if_neg hdone]
      exact ⟨[], rfl, .nil⟩

/-- The ids of raw text are those of its hits. -/
theorem encodeBody_resolves {cls : CharClass} {text : Str} {ids : List TokenId}
    (h : tokenizer.encodeBody cls text false = .ok ids) :
    ∃ hits, tokenizer.rawHits cls text = .ok hits ∧ tokenizer.Resolves hits ids := by
  unfold encodeBody at h
  unfold rawHits
  cases hmodel : tokenizer.model with
  | LlamaSpm =>
    rw [hmodel] at h
    obtain ⟨normalized, hnormalized, h⟩ := Outcome.bind_eq_ok.mp h
    dsimp only
    rw [hnormalized, Outcome.ok_bind]
    split at h
    · rename_i hempty
      obtain rfl := Outcome.ok.inj h
      obtain rfl := List.isEmpty_iff.mp hempty
      refine ⟨[], ?_, .nil⟩
      split
      · rfl
      · rfl
    · rename_i hempty
      have hne : normalized ≠ [] := fun hnil => hempty (by rw [hnil]; rfl)
      rw [encodePiece_noSpecial hne false fun hparse => absurd hparse Bool.false_ne_true, Bool.not_false,
        Bool.and_true] at h
      split at h
      · rename_i hranks
        rw [if_pos hranks]
        exact encodePieceGreedy_resolves h
      · rename_i hranks
        rw [encodeSpmSegment, if_neg hempty, if_neg hranks] at h
        obtain ⟨symbols, hsymbols, h⟩ := Outcome.bind_eq_ok.mp h
        rw [if_neg hranks, hsymbols, Outcome.ok_bind]
        exact resolveSpmSymbols_resolves h
  | Gpt2Bpe =>
    rw [hmodel] at h
    dsimp only at h ⊢
    split at h
    · rename_i hempty
      obtain rfl := Outcome.ok.inj h
      obtain rfl := List.isEmpty_iff.mp hempty
      exact ⟨[], rfl, .nil⟩
    · exact encodeBpeFrom_resolves h

end Tokenizer

end CamelidEnterprise

import CamelidEnterprise.Engine.EncodeTotal

/-!
# Camelid Enterprise — SentencePiece, there and back

What `decode` makes of the ids `encode` gave raw text, for a SentencePiece vocabulary
that has a token for each of the 256 bytes and adds no space in front.

Encoding cuts the normalized text into pieces: texts that the vocabulary has, and single
characters that it does not have, which are spelled in byte tokens. Decoding undoes both,
with two exceptions. It takes a token for a byte by its text, however the token was found;
and it turns a meta-space into a space only where a token has one in its text.
`decode_encodeSpm_iff` says that the round trip holds exactly when no piece is such an
exception.
-/

namespace CamelidEnterprise

open Foundation Foundation.Text

namespace Tokenizer

/-- Meta-spaces for spaces. -/
def escape (text : Str) : Str := text.map fun ch => if ch = ' ' then spmSpace else ch

/-- Spaces for meta-spaces. -/
def unescape (text : Str) : Str := text.map fun ch => if ch = spmSpace then ' ' else ch

/-- A piece of a normalized text: one the vocabulary has, or a character it does not. -/
inductive SpmPiece
  | text (s : Str)
  | char (c : Char)
deriving DecidableEq, Repr

namespace SpmPiece

/-- The text that the piece is of. -/
def str : SpmPiece → Str
  | .text s => s
  | .char c => [c]

/-- What is looked up for it. -/
def hits : SpmPiece → List RawHit
  | .text s => [.text s]
  | .char c => (Utf8.encode [c]).map .byte

/-- Decoding gives the piece back. -/
def Faithful : SpmPiece → Prop
  | .text s => parseByteToken s = none
  | .char c => c ≠ spmSpace

instance : DecidablePred Faithful
  | .text s => inferInstanceAs (Decidable (parseByteToken s = none))
  | .char c => inferInstanceAs (Decidable (c ≠ spmSpace))

/-- The most bytes that decoding shows of the piece. -/
def weight : SpmPiece → Nat
  | .text s => if (parseByteToken s).isSome then 1 else byteLen (unescape s)
  | .char c => if c = spmSpace then 0 else c.utf8Size

end SpmPiece

/-- The text of a list of pieces. -/
def joined (pieces : List SpmPiece) : Str := pieces.flatMap SpmPiece.str

/-- What is looked up for a list of pieces. -/
def looked (pieces : List SpmPiece) : List RawHit := pieces.flatMap SpmPiece.hits

variable {tokenizer : Tokenizer}

/-- The vocabulary has a token for each byte. -/
def AllBytes (tokenizer : Tokenizer) : Prop :=
  ∀ byte, ∃ token ∈ tokenizer.tokens, parseByteToken token.text = some byte

-- ---------------------------------------------------------------------------
-- The byte index
-- ---------------------------------------------------------------------------

/-- Every byte that a token of the vocabulary stands for is in the byte index. -/
def ByteIndexed (vocab : Vocabulary) : Prop :=
  ∀ token ∈ vocab.tokens, ∀ byte, parseByteToken token.text = some byte →
    (vocab.byteTokenToId.lookup byte).isSome

theorem ByteIndexed.push {vocab : Vocabulary} (h : ByteIndexed vocab) (text : Str) (score : UInt32)
    (kind : TokenKind) : ByteIndexed (vocab.push text score kind) := by
  intro token htoken byte hbyte
  unfold Vocabulary.push at htoken ⊢
  dsimp only at htoken ⊢
  have hcases : parseByteToken text = some byte ∨ (vocab.byteTokenToId.lookup byte).isSome := by
    rcases List.mem_append.mp htoken with hold | hnew
    · exact Or.inr (h token hold byte hbyte)
    · obtain rfl := List.mem_singleton.mp hnew
      exact Or.inl hbyte
  cases hpushed : parseByteToken text with
  | none =>
    rcases hcases with hnew | hold
    · rw [hpushed] at hnew
      cases hnew
    · exact hold
  | some byte' =>
    by_cases heq : byte = byte'
    · rw [heq, AList.lookup_insert]
      rfl
    · rcases hcases with hnew | hold
      · rw [hpushed] at hnew
        exact absurd (Option.some.inj hnew).symm heq
      · dsimp only
        rwa [AList.lookup_insert_ne heq]

theorem buildVocabulary_byteIndexed {kindsRaw : List Int} {scores : List UInt32} {texts : List Str}
    {vocab result : Vocabulary} (h : ByteIndexed vocab)
    (hbuild : buildVocabulary kindsRaw scores texts vocab = .ok result) : ByteIndexed result := by
  induction texts generalizing vocab with
  | nil =>
    obtain rfl := Outcome.ok.inj hbuild
    exact h
  | cons text texts ih =>
    obtain ⟨kindRaw, -, hbuild⟩ := Outcome.bind_eq_ok.mp hbuild
    obtain ⟨kind, -, hbuild⟩ := Outcome.bind_eq_ok.mp hbuild
    obtain ⟨score, -, hbuild⟩ := Outcome.bind_eq_ok.mp hbuild
    exact ih (h.push text score kind) hbuild

theorem AllBytes.indexed {file : Gguf.GgufFile} (hfile : Tokenizer.fromGguf file = .ok tokenizer)
    (h : tokenizer.AllBytes) (byte : UInt8) : (tokenizer.byteTokenToId.lookup byte).isSome := by
  obtain ⟨token, htoken, hbyte⟩ := h byte
  obtain ⟨_, _, _, _, _, _, _, vocab, -, -, -, -, -, -, hbuild, -, rfl⟩ := fromGguf_steps hfile
  have hempty : ByteIndexed ⟨[], ∅, ∅⟩ := fun token htoken => absurd htoken List.not_mem_nil
  exact buildVocabulary_byteIndexed hempty hbuild token htoken byte hbyte

-- ---------------------------------------------------------------------------
-- Encoding cuts the text into pieces
-- ---------------------------------------------------------------------------

/-- An encoding that returned, with the pieces it was cut into. -/
def CutAs (tokenizer : Tokenizer) (encoded : EngineResult (List TokenId))
    (hits : EngineResult (List RawHit)) (text : Str) : Prop :=
  ∃ ids pieces, encoded = .ok ids ∧ hits = .ok (looked pieces) ∧
    tokenizer.Resolves (looked pieces) ids ∧ joined pieces = text

theorem CutAs.nil : tokenizer.CutAs (.ok []) (.ok []) [] :=
  ⟨[], [], rfl, rfl, .nil, rfl⟩

theorem encodeUnknownSymbolBytes_resolves_all
    (hbytes : ∀ byte, (tokenizer.byteTokenToId.lookup byte).isSome) (bytes : List UInt8) :
    ∃ ids, tokenizer.encodeUnknownSymbolBytes bytes = .ok ids ∧
      tokenizer.Resolves (bytes.map .byte) ids := by
  have hids : ∃ ids, tokenizer.encodeUnknownSymbolBytes bytes = .ok ids := by
    induction bytes with
    | nil => exact ⟨[], rfl⟩
    | cons byte bytes ih =>
      obtain ⟨ids, hids⟩ := ih
      obtain ⟨id, hid⟩ := Option.isSome_iff_exists.mp (hbytes byte)
      refine ⟨id :: ids, ?_⟩
      rw [encodeUnknownSymbolBytes, hid, Option.some_or, Outcome.okOr_some, Outcome.ok_bind, hids,
        Outcome.ok_bind]
  obtain ⟨ids, hids⟩ := hids
  exact ⟨ids, hids, encodeUnknownSymbolBytes_resolves hids⟩

theorem encodePieceGreedyFrom_cut (h : tokenizer.Bounded)
    (hbytes : ∀ byte, (tokenizer.byteTokenToId.lookup byte).isSome) (before rest : Str) {fuel : Nat}
    (hfuel : byteLen rest < fuel) :
    tokenizer.CutAs (tokenizer.encodePieceGreedyFrom (before ++ rest) fuel (byteLen before))
      (tokenizer.greedyHitsFrom (before ++ rest) fuel (byteLen before)) rest := by
  induction fuel generalizing before rest with
  | zero => exact absurd hfuel (Nat.not_lt_zero _)
  | succ fuel ih =>
    rw [encodePieceGreedyFrom, greedyHitsFrom]
    by_cases hmore : byteLen before < byteLen (before ++ rest)
    · have hne := rest_ne_nil hmore
      obtain ⟨best, hsearch, hbest⟩ := bestGreedy_turn h before hne
      rw [if_pos hmore, if_pos hmore, sliceFrom_append, Outcome.orPanic, Outcome.ok_bind,
        Outcome.ok_bind]
      dsimp only
      rw [hsearch, Outcome.ok_bind, Outcome.ok_bind]
      rcases best with _ | ⟨len, id, score⟩
      · -- no text of the vocabulary: the bytes of one character
        obtain ⟨ch, tail, rfl⟩ := List.exists_cons_of_ne_nil hne
        have hpos := ch.utf8Size_pos
        rw [byteLen_cons] at hfuel
        obtain ⟨ids, pieces, hids, hhits, hresolves, hjoined⟩ :=
          ih (before ++ [ch]) tail (by omega)
        rw [List.append_assoc, List.singleton_append, byteLen_append, byteLen_cons, byteLen_nil,
          Nat.add_zero] at hids hhits
        obtain ⟨own, hown, hbyte⟩ :=
          encodeUnknownSymbolBytes_resolves_all hbytes (Utf8.encode [ch])
        refine ⟨own ++ ids, .char ch :: pieces, ?_, ?_, hbyte.append hresolves, ?_⟩
        · dsimp only
          rw [List.head?_cons, Outcome.okOr_some, Outcome.ok_bind, hown, Outcome.ok_bind, hids,
            Outcome.ok_bind]
        · dsimp only
          rw [List.head?_cons, Outcome.orPanic, Outcome.ok_bind, hhits, Outcome.ok_bind]
          rfl
        · rw [joined, List.flatMap_cons, ← joined, hjoined]
          rfl
      · obtain ⟨front, after, hfront, rfl, rfl, hid⟩ := hbest len id score rfl
        have hpos : byteLen front ≠ 0 := fun hzero => hfront (byteLen_eq_zero.mp hzero)
        rw [byteLen_append] at hfuel
        obtain ⟨ids, pieces, hids, hhits, hresolves, hjoined⟩ :=
          ih (before ++ front) after (by omega)
        rw [List.append_assoc, byteLen_append] at hids hhits
        have hslice : slice (before ++ (front ++ after)) (byteLen before)
            (byteLen before + byteLen front) = some front :=
          slice_eq_some.mpr ⟨before, after, by rw [List.append_assoc], rfl, rfl⟩
        refine ⟨id :: ids, .text front :: pieces, ?_, ?_, .cons hid hresolves, ?_⟩
        · dsimp only
          rw [hids, Outcome.ok_bind]
        · dsimp only
          rw [hslice, Outcome.orPanic, Outcome.ok_bind, hhits, Outcome.ok_bind]
          rfl
        · rw [joined, List.flatMap_cons, ← joined, hjoined]
          rfl
    · have hnil : rest = [] := by
        rw [byteLen_append] at hmore
        exact byteLen_eq_zero.mp (by omega)
      rw [if_neg hmore, if_neg hmore, hnil]
      exact CutAs.nil

theorem encodePieceGreedy_cut (h : tokenizer.Bounded)
    (hbytes : ∀ byte, (tokenizer.byteTokenToId.lookup byte).isSome) (piece : Str) :
    tokenizer.CutAs (tokenizer.encodePieceGreedy piece) (tokenizer.greedyHits piece) piece :=
  encodePieceGreedyFrom_cut h hbytes [] piece (Nat.lt_succ_self _)

theorem resolveSpmSymbols_cut (h : tokenizer.Bounded)
    (hbytes : ∀ byte, (tokenizer.byteTokenToId.lookup byte).isSome) (symbols : List Str)
    (unresolved : Str) :
    tokenizer.CutAs (tokenizer.resolveSpmSymbols false symbols unresolved)
      (tokenizer.rankedHits symbols unresolved) (unresolved ++ symbols.flatten) := by
  have hwaiting : ∀ unresolved : Str, tokenizer.CutAs
      (if unresolved.isEmpty then .ok [] else tokenizer.encodePieceGreedy unresolved)
      (if unresolved.isEmpty then .ok [] else tokenizer.greedyHits unresolved) unresolved := by
    intro unresolved
    by_cases hempty : unresolved.isEmpty = true
    · rw [if_pos hempty, if_pos hempty, List.isEmpty_iff.mp hempty]
      exact CutAs.nil
    · rw [if_neg hempty, if_neg hempty]
      exact encodePieceGreedy_cut h hbytes unresolved
  induction symbols generalizing unresolved with
  | nil =>
    rw [List.flatten_nil, List.append_nil]
    exact hwaiting unresolved
  | cons symbol symbols ih =>
    rw [resolveSpmSymbols, rankedHits, Bool.false_and, if_neg Bool.false_ne_true]
    cases hid : tokenizer.tokenToId.lookup symbol with
    | none =>
      rw [Option.isSome_none, if_neg Bool.false_ne_true, List.flatten_cons, ← List.append_assoc]
      exact ih (unresolved ++ symbol)
    | some id =>
      rw [Option.isSome_some, if_pos rfl]
      obtain ⟨own, front, hown, hfront, hresolves, hjoined⟩ := hwaiting unresolved
      obtain ⟨ids, pieces, hids, hhits, hlater, hrest⟩ := ih []
      dsimp only
      rw [hown, hfront, Outcome.ok_bind, Outcome.ok_bind, hids, hhits, Outcome.ok_bind,
        Outcome.ok_bind]
      refine ⟨_, front ++ .text symbol :: pieces, rfl, ?_, ?_, ?_⟩
      · rw [looked, looked, looked, List.flatMap_append, List.flatMap_cons]
        rfl
      · rw [looked, List.flatMap_append, List.flatMap_cons]
        exact hresolves.append (.cons hid hlater)
      · rw [joined, List.flatMap_append, List.flatMap_cons, ← joined, ← joined, hjoined, hrest]
        rfl

/-- Raw text is normalized, and then matched greedily or merged by rank. -/
theorem encodeBody_raw (hmodel : tokenizer.model = .LlamaSpm)
    (hspace : tokenizer.config.addSpacePrefix = false) (cls : CharClass) (text : Str) :
    tokenizer.normalizeSpmText text false = .ok (escape text) ∧
      tokenizer.encodeBody cls text false =
        if tokenizer.ranksEmpty then tokenizer.encodePieceGreedy (escape text)
        else tokenizer.encodeSpmSegment (escape text) := by
  have hnormalized : tokenizer.normalizeSpmText text false = .ok (escape text) := by
    unfold normalizeSpmText addDummyPrefixAfterControlTokens
    rw [hspace]
    cases text with
    | nil => rfl
    | cons ch text => rfl
  refine ⟨hnormalized, ?_⟩
  unfold encodeBody
  rw [hmodel]
  dsimp only
  rw [hnormalized, Outcome.ok_bind]
  by_cases hempty : escape text = []
  · rw [hempty, List.isEmpty_nil, if_pos rfl]
    split
    · rfl
    · rfl
  · have hfull : ¬(escape text).isEmpty = true := fun hnil => hempty (List.isEmpty_iff.mp hnil)
    rw [if_neg hfull, encodePiece_noSpecial hempty false fun hparse => absurd hparse Bool.false_ne_true,
      Bool.not_false, Bool.and_true]

/-- **Key lemma.** A vocabulary with all byte tokens encodes every text, piece by piece. -/
theorem encodeBody_cut (hmodel : tokenizer.model = .LlamaSpm)
    (hspace : tokenizer.config.addSpacePrefix = false) (h : tokenizer.Bounded)
    (hbytes : ∀ byte, (tokenizer.byteTokenToId.lookup byte).isSome) (cls : CharClass) (text : Str) :
    tokenizer.CutAs (tokenizer.encodeBody cls text false) (tokenizer.rawHits cls text)
      (escape text) := by
  obtain ⟨hnormalized, hbody⟩ := @encodeBody_raw tokenizer hmodel hspace cls text
  rw [hbody, rawHits, hmodel]
  dsimp only
  rw [hnormalized, Outcome.ok_bind]
  generalize escape text = normalized
  by_cases hranks : tokenizer.ranksEmpty = true
  · rw [if_pos hranks, if_pos hranks]
    exact encodePieceGreedy_cut h hbytes normalized
  · rw [if_neg hranks, if_neg hranks, encodeSpmSegment]
    obtain ⟨symbols, hsymbols, -⟩ :=
      tokenizer.bpeRegistry.mergeSymbols_ok (normalized.map fun ch => [ch])
    have hcut := resolveSpmSymbols_cut h hbytes symbols []
    have hflat : (normalized.map fun ch => [ch]).flatten = normalized := by
      clear hcut hsymbols hnormalized
      induction normalized with
      | nil => rfl
      | cons ch normalized ih => rw [List.map_cons, List.flatten_cons, ih]; rfl
    rw [List.nil_append, mergeSymbolsFuel_flatten hsymbols, hflat] at hcut
    by_cases hempty : normalized.isEmpty = true
    · obtain rfl := List.isEmpty_iff.mp hempty
      exact CutAs.nil
    · rw [if_neg hempty, if_neg hranks, hsymbols, Outcome.ok_bind, Outcome.ok_bind]
      exact hcut

-- ---------------------------------------------------------------------------
-- Decoding takes the pieces one by one
-- ---------------------------------------------------------------------------

theorem unescape_append (s t : Str) : unescape (s ++ t) = unescape s ++ unescape t :=
  List.map_append

/-- A text without meta-spaces comes back from its normalization. -/
theorem unescape_escape {text : Str} (h : spmSpace ∉ text) :
    unescape (escape text) = text := by
  rw [unescape, escape, List.map_map]
  refine (List.map_congr_left fun ch hch => ?_).trans text.map_id
  by_cases hspace : ch = ' '
  · rw [Function.comp_apply, if_pos hspace, if_pos rfl, hspace]
    rfl
  · have hne : ch ≠ spmSpace := by
      rintro rfl
      exact h hch
    rw [Function.comp_apply, if_neg hspace, if_neg hne]
    rfl

/-- A looked-up text is decoded by its own text. -/
theorem decodeSpmFrom_text (hwf : tokenizer.WellFormed) {s : Str} {id : TokenId}
    (hid : tokenizer.tokenToId.lookup s = some id) (ids : List TokenId) (run : List UInt8)
    (text : Str) :
    tokenizer.decodeSpmFrom false (id :: ids) run text =
      match parseByteToken s with
      | some byte => tokenizer.decodeSpmFrom false ids (run ++ [byte]) text
      | none => tokenizer.decodeSpmFrom false ids [] (text ++ readableText run ++ unescape s) := by
  obtain ⟨token, hvisible, rfl⟩ := visibleToken_indexed hwf hid
  rw [decodeSpmFrom, hvisible, Outcome.ok_bind]
  rfl

/-- Byte tokens lengthen the run by the bytes they stand for. -/
theorem decodeSpmFrom_bytes (hwf : tokenizer.WellFormed)
    (hbytes : ∀ byte, (tokenizer.byteTokenToId.lookup byte).isSome) {bytes : List UInt8}
    {ids : List TokenId} (h : tokenizer.Resolves (bytes.map .byte) ids) (more : List TokenId)
    (run : List UInt8) (text : Str) :
    tokenizer.decodeSpmFrom false (ids ++ more) run text =
      tokenizer.decodeSpmFrom false more (run ++ bytes) text := by
  induction bytes generalizing ids run with
  | nil =>
    cases h
    rw [List.nil_append, List.append_nil]
  | cons byte bytes ih =>
    cases h with
    | @cons _ id _ ids hid hids =>
      obtain ⟨found, hfound⟩ := Option.isSome_iff_exists.mp (hbytes byte)
      obtain rfl : found = id := by
        rw [hitId, hfound, Option.some_or] at hid
        exact Option.some.inj hid
      obtain ⟨token, htoken, hbyte⟩ := hwf.indexed.bytes byte found hfound
      have hvisible : tokenizer.visibleToken false found = .ok (some token) := by
        rw [visibleToken, Bool.false_and, if_neg Bool.false_ne_true, htoken, Outcome.okOr_some,
          Outcome.ok_bind, Bool.false_and, if_neg Bool.false_ne_true]
      rw [List.cons_append, decodeSpmFrom, hvisible, Outcome.ok_bind]
      dsimp only
      rw [hbyte]
      dsimp only
      rw [ih hids, List.append_assoc, List.singleton_append]

/-- The ids of a piece, and those of the pieces after it. -/
theorem resolves_cons {piece : SpmPiece} {pieces : List SpmPiece} {ids : List TokenId}
    (h : tokenizer.Resolves (looked (piece :: pieces)) ids) :
    ∃ own more, ids = own ++ more ∧ tokenizer.Resolves piece.hits own ∧
      tokenizer.Resolves (looked pieces) more := by
  rw [looked, List.flatMap_cons] at h
  exact ⟨_, _, (List.take_append_drop piece.hits.length ids).symm,
    (List.forall₂_take_append _ _ _ h.flip).flip, (List.forall₂_drop_append _ _ _ h.flip).flip⟩

/-- Faithful pieces are decoded to their text. -/
theorem decodeSpmFrom_faithful (hwf : tokenizer.WellFormed)
    (hbytes : ∀ byte, (tokenizer.byteTokenToId.lookup byte).isSome) {pieces : List SpmPiece}
    {ids : List TokenId} (h : tokenizer.Resolves (looked pieces) ids)
    (hfaithful : ∀ piece ∈ pieces, piece.Faithful) (run text : Str) :
    tokenizer.decodeSpmFrom false ids (Utf8.encode run) text =
      .ok (text ++ run ++ unescape (joined pieces)) := by
  induction pieces generalizing ids run text with
  | nil =>
    cases h
    rw [decodeSpmFrom, readableText_eq, Utf8.decodePrefix_encode, joined, List.flatMap_nil]
    exact congrArg Outcome.ok (List.append_nil _).symm
  | cons piece pieces ih =>
    obtain ⟨own, more, rfl, hown, hmore⟩ := resolves_cons h
    obtain ⟨hpiece, hlater⟩ := List.forall_mem_cons.mp hfaithful
    rw [joined, List.flatMap_cons, ← joined, unescape_append]
    cases piece with
    | text s =>
      cases hown with
      | @cons _ id _ _ hid hnil =>
        cases hnil
        have hs : parseByteToken s = none := hpiece
        rw [List.singleton_append, decodeSpmFrom_text hwf hid, hs]
        dsimp only
        rw [readableText_eq, Utf8.decodePrefix_encode, ← Utf8.encode_nil, ih hmore hlater,
          List.append_nil, List.append_assoc, SpmPiece.str]
    | char c =>
      have hc : c ≠ spmSpace := hpiece
      have hkept : unescape [c] = [c] := by rw [unescape, List.map_singleton, if_neg hc]
      rw [decodeSpmFrom_bytes hwf hbytes hown, ← Utf8.encode_append, ih hmore hlater,
        SpmPiece.str, hkept]
      simp

-- ---------------------------------------------------------------------------
-- A piece that is not decoded to its text is missed
-- ---------------------------------------------------------------------------

/-- However the run goes on, at most `limit` of its bytes, and those that are added,
are shown in a text without meta-spaces. -/
def Fits (run : List UInt8) (limit : Nat) : Prop :=
  ∀ more shown, Utf8.encode shown <+: run ++ more → spmSpace ∉ shown →
    byteLen shown ≤ limit + more.length

theorem Fits.nil : Fits [] 0 := by
  intro more shown h _
  rw [← length_encode, Nat.zero_add]
  exact h.length_le

theorem Fits.append {run : List UInt8} {limit : Nat} (h : Fits run limit) (bytes : List UInt8) :
    Fits (run ++ bytes) (limit + bytes.length) := by
  intro more shown hshown hfresh
  rw [List.append_assoc] at hshown
  have hle := h (bytes ++ more) shown hshown hfresh
  rwa [List.length_append, ← Nat.add_assoc] at hle

/-- The bytes of a meta-space show nothing more. -/
theorem Fits.space {run : List UInt8} {limit : Nat} (h : Fits run limit) :
    Fits (run ++ Utf8.encode [spmSpace]) limit := by
  intro more shown hshown hfresh
  have hencode : Utf8.encode [spmSpace] = String.utf8EncodeChar spmSpace := by simp
  rw [hencode, List.append_assoc] at hshown
  have hlen := Utf8.length_encode_le_of_fresh hfresh hshown
  have hrun : Utf8.encode shown <+: run ++ [] := by
    rw [List.append_nil]
    exact List.prefix_of_prefix_length_le hshown (List.prefix_append _ _) hlen
  exact (h [] shown hrun hfresh).trans (Nat.add_le_add_left (Nat.zero_le _) limit)

theorem Fits.shown {run : List UInt8} {limit : Nat} (h : Fits run limit)
    (hfresh : spmSpace ∉ readableText run) : byteLen (readableText run) ≤ limit := by
  refine h [] _ ?_ hfresh
  rw [List.append_nil, readableText_eq]
  exact Utf8.encode_decodePrefix_isPrefix run

/-- What is decoded without meta-spaces has no more bytes than the pieces have weight. -/
theorem decodeSpmFrom_weight (hwf : tokenizer.WellFormed)
    (hbytes : ∀ byte, (tokenizer.byteTokenToId.lookup byte).isSome) {pieces : List SpmPiece}
    {ids : List TokenId} (h : tokenizer.Resolves (looked pieces) ids) {run : List UInt8}
    {limit : Nat} (hfits : Fits run limit) {text out : Str}
    (hout : tokenizer.decodeSpmFrom false ids run text = .ok out) (hfresh : spmSpace ∉ out) :
    byteLen out ≤ byteLen text + limit + (pieces.map SpmPiece.weight).sum := by
  -- what has been decoded so far is in the result
  have hsofar : ∀ {ids run text}, tokenizer.decodeSpmFrom false ids run text = .ok out →
      spmSpace ∉ text ++ readableText run :=
    fun hout hmem => hfresh ((decodeSpmFrom_extends hout).subset hmem)
  induction pieces generalizing ids run limit text with
  | nil =>
    cases h
    have hrun := hfits.shown fun hmem => hsofar hout (List.mem_append_right text hmem)
    obtain rfl := Outcome.ok.inj hout
    rw [byteLen_append, List.map_nil, List.sum_nil]
    omega
  | cons piece pieces ih =>
    obtain ⟨own, more, rfl, hown, hmore⟩ := resolves_cons h
    rw [List.map_cons, List.sum_cons]
    cases piece with
    | text s =>
      cases hown with
      | @cons _ id _ _ hid hnil =>
        cases hnil
        have hrun := hfits.shown fun hmem => hsofar hout (List.mem_append_right text hmem)
        rw [List.singleton_append, decodeSpmFrom_text hwf hid] at hout
        rw [SpmPiece.weight]
        cases hbyte : parseByteToken s with
        | some byte =>
          rw [hbyte] at hout
          have hlater := ih hmore (hfits.append [byte]) hout
          rw [List.length_singleton] at hlater
          rw [Option.isSome_some, if_pos rfl]
          omega
        | none =>
          rw [hbyte] at hout
          have hlater := ih hmore Fits.nil hout
          rw [byteLen_append, byteLen_append] at hlater
          rw [Option.isSome_none, if_neg Bool.false_ne_true]
          omega
    | char c =>
      rw [SpmPiece.hits] at hown
      rw [decodeSpmFrom_bytes hwf hbytes hown] at hout
      rw [SpmPiece.weight]
      by_cases hc : c = spmSpace
      · subst hc
        rw [if_pos rfl, Nat.zero_add]
        exact ih hmore hfits.space hout
      · have hlater := ih hmore (hfits.append (Utf8.encode [c])) hout
        rw [length_encode, byteLen_cons, byteLen_nil, Nat.add_zero] at hlater
        rw [if_neg hc]
        omega

/-- A text that is taken for a byte is longer than one byte. -/
theorem parseByteToken_long {s : Str} {byte : UInt8} (h : parseByteToken s = some byte) :
    1 < byteLen (unescape s) := by
  obtain ⟨rest, hrest, -⟩ := Option.bind_eq_some_iff.mp h
  unfold stripPrefix at hrest
  split at hrest
  · rename_i hlead
    obtain ⟨after, rfl⟩ := List.isPrefixOf_iff_prefix.mp hlead
    rw [unescape_append, byteLen_append]
    have hlen : byteLen (unescape "<0x".toList) = 3 := by decide +kernel
    omega
  · cases hrest

/-- A piece weighs no more than the text it is of, and as much only if it is faithful. -/
theorem weight_le (piece : SpmPiece) :
    piece.weight ≤ byteLen (unescape piece.str) ∧
      (piece.weight = byteLen (unescape piece.str) → piece.Faithful) := by
  cases piece with
  | text s =>
    rw [SpmPiece.weight, SpmPiece.str]
    cases hbyte : parseByteToken s with
    | none =>
      rw [Option.isSome_none, if_neg Bool.false_ne_true]
      exact ⟨Nat.le_refl _, fun _ => hbyte⟩
    | some byte =>
      have hlong := parseByteToken_long hbyte
      rw [Option.isSome_some, if_pos rfl]
      exact ⟨Nat.le_of_lt hlong, fun heq => absurd heq (Nat.ne_of_lt hlong)⟩
  | char c =>
    rw [SpmPiece.weight, SpmPiece.str, unescape, List.map_singleton]
    by_cases hc : c = spmSpace
    · rw [if_pos hc, if_pos hc]
      exact ⟨Nat.zero_le _, fun heq => absurd heq (by decide)⟩
    · rw [if_neg hc, if_neg hc, byteLen_cons, byteLen_nil, Nat.add_zero]
      exact ⟨Nat.le_refl _, fun _ => hc⟩

theorem faithful_of_weight {pieces : List SpmPiece}
    (h : byteLen (unescape (joined pieces)) ≤ (pieces.map SpmPiece.weight).sum) :
    ∀ piece ∈ pieces, piece.Faithful := by
  have hle : ∀ pieces : List SpmPiece,
      (pieces.map SpmPiece.weight).sum ≤ byteLen (unescape (joined pieces)) := by
    intro pieces
    induction pieces with
    | nil => exact Nat.zero_le _
    | cons piece pieces ih =>
      rw [List.map_cons, List.sum_cons, joined, List.flatMap_cons, ← joined, unescape_append,
        byteLen_append]
      exact Nat.add_le_add (weight_le piece).1 ih
  induction pieces with
  | nil => exact fun piece hpiece => absurd hpiece List.not_mem_nil
  | cons piece pieces ih =>
    rw [List.map_cons, List.sum_cons, joined, List.flatMap_cons, ← joined, unescape_append,
      byteLen_append] at h
    have hpiece := (weight_le piece).1
    have hpieces := hle pieces
    exact List.forall_mem_cons.mpr ⟨(weight_le piece).2 (by omega), ih (by omega)⟩

/-- **When a SentencePiece text comes back.** A vocabulary with all byte tokens that adds
no space in front encodes every text, and the ids decode to a text without meta-spaces
exactly when none of the pieces it is cut into is a vocabulary text that reads as a byte
token, or a meta-space that has to be spelled in bytes. -/
theorem decode_encodeSpm_iff (cls : CharClass) {file : Gguf.GgufFile} {tokenizer : Tokenizer}
    (hfile : Tokenizer.fromGguf file = .ok tokenizer) (hmodel : tokenizer.model = .LlamaSpm)
    (hspace : tokenizer.config.addSpacePrefix = false) (hbytes : tokenizer.AllBytes) {text : Str}
    (htext : spmSpace ∉ text) :
    ∃ ids pieces, tokenizer.encode cls text false false = .ok ids ∧
      tokenizer.rawHits cls text = .ok (looked pieces) ∧
      joined pieces = escape text ∧
      (tokenizer.decode ids false = .ok text ↔ ∀ piece ∈ pieces, piece.Faithful) := by
  have hwf := Tokenizer.fromGguf_wellFormed hfile
  have hlookup := hbytes.indexed hfile
  obtain ⟨ids, pieces, hids, hhits, hresolves, hjoined⟩ :=
    encodeBody_cut hmodel hspace (fromGguf_bounded hfile) hlookup cls text
  have hencode : tokenizer.encode cls text false false = .ok ids := by
    rw [encode_eq, hids, Outcome.ok_bind]
    exact congrArg Outcome.ok (List.append_nil ids)
  have hshown : unescape (joined pieces) = text := by rw [hjoined, unescape_escape htext]
  refine ⟨ids, pieces, hencode, hhits, hjoined, ?_⟩
  simp only [decode, hmodel]
  constructor
  · intro hdecode
    have hweight := decodeSpmFrom_weight hwf hlookup hresolves Fits.nil hdecode htext
    rw [byteLen_nil, Nat.zero_add] at hweight
    refine faithful_of_weight ?_
    rw [hshown]
    omega
  · intro hfaithful
    have hdecode := decodeSpmFrom_faithful hwf hlookup hresolves hfaithful [] []
    rw [hshown] at hdecode
    exact hdecode

-- ---------------------------------------------------------------------------
-- A vocabulary of byte tokens
-- ---------------------------------------------------------------------------

/-- `<0x00>` to `<0xFF>` -/
def byteTokenText (byte : UInt8) : Str :=
  let digits := ['0', '1', '2', '3', '4', '5', '6', '7', '8', '9', 'A', 'B', 'C', 'D', 'E', 'F']
  ['<', '0', 'x', digits[byte.toNat / 16]?.getD '0', digits[byte.toNat % 16]?.getD '0', '>']

/-- A SentencePiece vocabulary of normal tokens that adds no space in front of a text. -/
def plainFile (texts : List Str) : Gguf.GgufFile where
  version := 3
  tensorCount := 0
  metadataCount := 3
  alignment := 32
  dataStartOffset := 0
  metadata :=
    ((∅ : Gguf.Metadata).insert "tokenizer.ggml.model".toList (.String "llama".toList)).insert
      "tokenizer.ggml.add_space_prefix".toList (.Bool false)
    |>.insert "tokenizer.ggml.tokens".toList (.Array (texts.map .String))
  tensors := []

theorem parseByteToken_byteTokenText (byte : UInt8) :
    parseByteToken (byteTokenText byte) = some byte := by
  have hall : ∀ n : Fin 256, parseByteToken (byteTokenText (UInt8.ofNat n.val)) =
      some (UInt8.ofNat n.val) := by
    decide +kernel
  have hbyte := hall ⟨byte.toNat, byte.toNat_lt⟩
  rwa [UInt8.ofNat_toNat] at hbyte

/-- Normal tokens without scores are pushed one by one. -/
theorem buildVocabulary_plain {texts : List Str} {vocab : Vocabulary} {count : Nat}
    (h : vocab.tokens.length + texts.length ≤ count) :
    ∃ result, buildVocabulary (List.replicate count 1) (List.replicate count 0) texts vocab =
        .ok result ∧
      result.tokens.map (·.text) = vocab.tokens.map (·.text) ++ texts := by
  induction texts generalizing vocab with
  | nil => exact ⟨vocab, rfl, (List.append_nil _).symm⟩
  | cons text texts ih =>
    rw [List.length_cons] at h
    have hlen : (vocab.push text 0 .Normal).tokens.length = vocab.tokens.length + 1 :=
      List.length_append
    obtain ⟨result, hresult, htexts⟩ := @ih (vocab.push text 0 .Normal) (by omega)
    have hplace : vocab.tokens.length < count := by omega
    refine ⟨result, ?_, ?_⟩
    · rw [buildVocabulary, List.getElem?_replicate_of_lt hplace,
        List.getElem?_replicate_of_lt hplace]
      exact hresult
    · rw [htexts, Vocabulary.push, List.map_append, List.append_assoc]
      rfl

theorem validateTokenId_ok {name : String} {id : Option TokenId} {len : Nat}
    (h : ∀ e, id = some e → e < len) : validateTokenId name id len = .ok () := by
  cases id with
  | none => rfl
  | some e => exact if_neg (Nat.not_le_of_lt (h e rfl))

theorem mapM_strings {extract : Gguf.MetadataValue → Option Str}
    (h : ∀ value, extract (.String value) = some value) (texts : List Str) :
    (texts.map Gguf.MetadataValue.String).mapM extract = some texts := by
  induction texts with
  | nil => rfl
  | cons text texts ih => rw [List.map_cons, List.mapM_cons, h, ih]; rfl

/-- Such a vocabulary is accepted. -/
theorem fromGguf_plainFile {texts : List Str} (hlen : 3 ≤ texts.length) :
    ∃ tokenizer, Tokenizer.fromGguf (plainFile texts) = .ok tokenizer ∧
      tokenizer.model = .LlamaSpm ∧ tokenizer.config.addSpacePrefix = false ∧
      tokenizer.ranksEmpty = true ∧ tokenizer.tokens.map (·.text) = texts := by
  obtain ⟨vocab, hvocab, htexts⟩ := @buildVocabulary_plain texts ⟨[], ∅, ∅⟩ texts.length
    (by rw [List.length_nil, Nat.zero_add])
  have hcount : vocab.tokens.length = texts.length := by
    rw [← List.length_map (·.text), htexts]
    rfl
  have hindexed : Indexed vocab.tokens vocab.tokenToId vocab.byteTokenToId :=
    buildVocabulary_indexed Indexed.empty hvocab
  -- the metadata
  have hother : ∀ key : String, key.toList ≠ "tokenizer.ggml.tokens".toList →
      key.toList ≠ "tokenizer.ggml.add_space_prefix".toList →
      key.toList ≠ "tokenizer.ggml.model".toList →
      (plainFile texts).metadata.lookup key.toList = none := by
    intro key htokens hspace hmodel
    rw [plainFile, AList.lookup_insert_ne htokens, AList.lookup_insert_ne hspace,
      AList.lookup_insert_ne hmodel, AList.lookup_empty]
  have hu32 : ∀ key : String, (plainFile texts).metadata.lookup key.toList = none →
      (plainFile texts).metadataU32 key = none := by
    intro key hkey
    rw [Gguf.GgufFile.metadataU32, hkey]
  have hname : (plainFile texts).metadataString "tokenizer.ggml.model" = some "llama".toList := by
    rw [Gguf.GgufFile.metadataString, plainFile, AList.lookup_insert_ne (by decide +kernel),
      AList.lookup_insert_ne (by decide +kernel), AList.lookup_insert]
  have hmodel : resolveModel "llama".toList = .ok .LlamaSpm := by decide +kernel
  have harray : (plainFile texts).metadataArrayStrings "tokenizer.ggml.tokens" = .ok texts := by
    rw [Gguf.GgufFile.metadataArrayStrings, Gguf.GgufFile.metadataArrayStringsOptional,
      Gguf.GgufFile.typedArrayOptional, plainFile, AList.lookup_insert]
    dsimp only
    rw [mapM_strings fun _ => rfl]
    rfl
  have hscores : (plainFile texts).metadataArrayF32Optional "tokenizer.ggml.scores" = .ok none := by
    rw [Gguf.GgufFile.metadataArrayF32Optional, Gguf.GgufFile.typedArrayOptional,
      hother _ (by decide +kernel) (by decide +kernel) (by decide +kernel)]
  have hkinds : (plainFile texts).metadataArrayI32Optional "tokenizer.ggml.token_type" = .ok none := by
    rw [Gguf.GgufFile.metadataArrayI32Optional, Gguf.GgufFile.typedArrayOptional,
      hother _ (by decide +kernel) (by decide +kernel) (by decide +kernel)]
  have hmerges : (plainFile texts).metadataArrayStringsOptional "tokenizer.ggml.merges" =
      .ok none := by
    rw [Gguf.GgufFile.metadataArrayStringsOptional, Gguf.GgufFile.typedArrayOptional,
      hother _ (by decide +kernel) (by decide +kernel) (by decide +kernel)]
  have hspace : (plainFile texts).metadataBool "tokenizer.ggml.add_space_prefix" = some false := by
    rw [Gguf.GgufFile.metadataBool, plainFile, AList.lookup_insert_ne (by decide +kernel),
      AList.lookup_insert]
  -- the special ids are the defaults of the family, and `<|eot_id|>` where there is one
  have hspecial : validateSpecial (resolveSpecial (plainFile texts) .LlamaSpm vocab)
      vocab.tokens.length = .ok () := by
    have hnone : ∀ key ∈ ["tokenizer.ggml.bos_token_id", "tokenizer.ggml.eos_token_id",
        "tokenizer.ggml.unknown_token_id", "tokenizer.ggml.eot_token_id",
        "tokenizer.ggml.eom_token_id", "tokenizer.ggml.separator_token_id",
        "tokenizer.ggml.seperator_token_id", "tokenizer.ggml.padding_token_id",
        "tokenizer.ggml.mask_token_id"], (plainFile texts).metadataU32 key = none := by
      intro key hkey
      have hdistinct : ∀ key ∈ ["tokenizer.ggml.bos_token_id", "tokenizer.ggml.eos_token_id",
          "tokenizer.ggml.unknown_token_id", "tokenizer.ggml.eot_token_id",
          "tokenizer.ggml.eom_token_id", "tokenizer.ggml.separator_token_id",
          "tokenizer.ggml.seperator_token_id", "tokenizer.ggml.padding_token_id",
          "tokenizer.ggml.mask_token_id"], key.toList ≠ "tokenizer.ggml.tokens".toList ∧
            key.toList ≠ "tokenizer.ggml.add_space_prefix".toList ∧
            key.toList ≠ "tokenizer.ggml.model".toList := by
        decide +kernel
      obtain ⟨htokens, hspace, hmodel⟩ := hdistinct key hkey
      exact hu32 key (hother key htokens hspace hmodel)
    have heot : ∀ e, vocab.tokenToId.lookup "<|eot_id|>".toList = some e →
        e < vocab.tokens.length := by
      intro e he
      obtain ⟨token, htoken, -⟩ := hindexed.texts _ e he
      exact (List.getElem?_eq_some_iff.mp htoken).1
    have hsmall : ∀ n < 3, ∀ e, some n = some e → e < vocab.tokens.length := by
      intro n hn e he
      obtain rfl := Option.some.inj he
      omega
    have habsent : ∀ e, none = some e → e < vocab.tokens.length := by
      intro e he
      cases he
    simp only [validateSpecial, resolveSpecial, hnone, List.mem_cons, true_or, or_true, Option.none_or,
      validateTokenId_ok (hsmall 0 (by decide)), validateTokenId_ok (hsmall 1 (by decide)),
      validateTokenId_ok (hsmall 2 (by decide)), validateTokenId_ok heot,
      validateTokenId_ok habsent, Outcome.ok_bind]
  have hne : texts ≠ [] := by
    rintro rfl
    exact absurd hlen (by decide)
  refine ⟨{ model := .LlamaSpm
            bpePreTokenizer := .Llama3
            tokens := vocab.tokens
            tokenToId := vocab.tokenToId
            byteTokenToId := vocab.byteTokenToId
            bpeRanks := (BpeRegistry.fromMerges []).ranks
            bpeRegistry := BpeRegistry.fromMerges []
            special := resolveSpecial (plainFile texts) .LlamaSpm vocab
            config := resolveConfig (plainFile texts) "llama".toList
            chatTemplate := (plainFile texts).metadataString "tokenizer.chat_template" },
    ?_, rfl, ?_, rfl, htexts⟩
  · rw [Tokenizer.fromGguf, hname, Outcome.okOr_some, Outcome.ok_bind, hmodel, Outcome.ok_bind, harray,
      Outcome.ok_bind, if_neg hne, resolvePreTokenizer, Outcome.ok_bind, hscores, Outcome.ok_bind,
      Option.getD_none]
    dsimp only
    rw [if_neg (by rw [List.length_replicate]; exact Nat.lt_irrefl _), hkinds, Outcome.ok_bind,
      Option.getD_none, if_neg (by rw [List.length_replicate]; exact Nat.lt_irrefl _), hmerges,
      Outcome.ok_bind, hvocab, Outcome.ok_bind, hspecial, Outcome.ok_bind]
    rfl
  · show ((plainFile texts).metadataBool "tokenizer.ggml.add_space_prefix").getD true = false
    rw [hspace]
    rfl

/-- The 256 byte tokens and the meta-space. -/
def byteTexts : List Str := allBytes.map byteTokenText ++ [[spmSpace]]

theorem fromGguf_byteTexts : ∃ tokenizer, Tokenizer.fromGguf (plainFile byteTexts) = .ok tokenizer ∧
    tokenizer.model = .LlamaSpm ∧ tokenizer.config.addSpacePrefix = false ∧
    tokenizer.ranksEmpty = true ∧ tokenizer.tokens.map (·.text) = byteTexts ∧
    tokenizer.AllBytes := by
  have hlen : 3 ≤ byteTexts.length := by decide +kernel
  obtain ⟨tokenizer, hfile, hmodel, hspace, hranks, htexts⟩ := fromGguf_plainFile hlen
  refine ⟨tokenizer, hfile, hmodel, hspace, hranks, htexts, fun byte => ?_⟩
  have hmem : byteTokenText byte ∈ tokenizer.tokens.map (·.text) := by
    rw [htexts]
    exact List.mem_append_left _ (List.mem_map_of_mem (mem_allBytes byte))
  obtain ⟨token, htoken, htext⟩ := List.mem_map.mp hmem
  exact ⟨token, htoken, by rw [htext, parseByteToken_byteTokenText]⟩

/-- The letters of a text and the space between them come back just where every piece of
their cut is faithful. -/
theorem decode_encodeSpm_letters :
    ∃ tokenizer, Tokenizer.fromGguf (plainFile byteTexts) = .ok tokenizer ∧
      ∃ ids pieces, tokenizer.encode asciiClass ['a', ' ', 'b'] false false = .ok ids ∧
        joined pieces = ['a', spmSpace, 'b'] ∧
        (tokenizer.decode ids false = .ok ['a', ' ', 'b'] ↔ ∀ piece ∈ pieces, piece.Faithful) := by
  obtain ⟨tokenizer, hfile, hmodel, hspace, -, -, hbytes⟩ := fromGguf_byteTexts
  have htext : spmSpace ∉ ['a', ' ', 'b'] := by decide
  obtain ⟨ids, pieces, hids, -, hjoined, hiff⟩ :=
    decode_encodeSpm_iff asciiClass hfile hmodel hspace hbytes htext
  exact ⟨tokenizer, hfile, ids, pieces, hids, hjoined, hiff⟩

/-- The text `<0x41>` comes back as the letter that its byte token stands for. -/
theorem decode_encodeSpm_byteToken : ¬∀ (cls : CharClass) (file : Gguf.GgufFile)
    (tokenizer : Tokenizer) (text : Str), Tokenizer.fromGguf file = .ok tokenizer →
      tokenizer.model = .LlamaSpm → tokenizer.config.addSpacePrefix = false →
      tokenizer.AllBytes → spmSpace ∉ text →
      ∃ ids, tokenizer.encode cls text false false = .ok ids ∧
        tokenizer.decode ids false = .ok text := by
  intro hall
  obtain ⟨tokenizer, hfile, hmodel, hspace, hranks, htexts, hbytes⟩ := fromGguf_byteTexts
  have hwf := Tokenizer.fromGguf_wellFormed hfile
  obtain ⟨ids, hids, hdecode⟩ := hall asciiClass _ tokenizer (byteTokenText 0x41) hfile hmodel hspace
    hbytes (by decide +kernel)
  -- the text has an id, and none of its beginnings has one
  have hmem : byteTokenText 0x41 ∈ tokenizer.tokens.map (·.text) := by
    rw [htexts]
    exact List.mem_append_left _ (List.mem_map_of_mem (mem_allBytes 0x41))
  obtain ⟨token, htoken, htext⟩ := List.mem_map.mp hmem
  obtain ⟨i, hi⟩ := List.mem_iff_getElem?.mp htoken
  obtain ⟨id, hid, -⟩ := hwf.indexed.latest i token hi
  rw [htext] at hid
  have hskip : ∀ n ∈ [1, 2, 3, 4, 5], ∀ ends,
      tokenizer.bestGreedy (byteTokenText 0x41) 0 (n :: ends) none =
        tokenizer.bestGreedy (byteTokenText 0x41) 0 ends none := by
    intro n hn ends
    have hparts : ∀ n ∈ [1, 2, 3, 4, 5], slice (byteTokenText 0x41) 0 n =
          some ((byteTokenText 0x41).take n) ∧
        contains [spmSpace, spmSpace] ((byteTokenText 0x41).take n) = false ∧
        (byteTokenText 0x41).take n ∉ byteTexts := by
      decide +kernel
    obtain ⟨hslice, hspaces, hfresh⟩ := hparts n hn
    have hnone : tokenizer.tokenToId.lookup ((byteTokenText 0x41).take n) = none := by
      cases hfound : tokenizer.tokenToId.lookup ((byteTokenText 0x41).take n) with
      | none => rfl
      | some found =>
        obtain ⟨owner, howner, hown⟩ := hwf.indexed.texts _ found hfound
        refine absurd ?_ hfresh
        rw [← hown, ← htexts]
        exact List.mem_map_of_mem (List.mem_of_getElem? howner)
    rw [bestGreedy, hslice, Outcome.orPanic, Outcome.ok_bind, hspaces, hnone]
    rfl
  have hlast : ∃ score, tokenizer.bestGreedy (byteTokenText 0x41) 0 [6] none =
      .ok (some (6, id, score)) := by
    obtain ⟨owner, howner, -⟩ := hwf.indexed.texts _ id hid
    have hslice : slice (byteTokenText 0x41) 0 6 = some (byteTokenText 0x41) := by decide +kernel
    have hspaces : contains [spmSpace, spmSpace] (byteTokenText 0x41) = false := by decide +kernel
    refine ⟨owner.score, ?_⟩
    rw [bestGreedy, hslice, Outcome.orPanic, Outcome.ok_bind, hspaces, hid]
    dsimp only
    rw [howner]
    rfl
  obtain ⟨score, hlast⟩ := hlast
  have hgreedy : tokenizer.encodePieceGreedy (byteTokenText 0x41) = .ok [id] := by
    have hends : (charIndices (byteTokenText 0x41) 0).drop 1 ++ [byteLen (byteTokenText 0x41)] =
        [1, 2, 3, 4, 5, 6] := by
      decide +kernel
    have hbest : tokenizer.bestGreedy (byteTokenText 0x41) 0 [1, 2, 3, 4, 5, 6] none =
        .ok (some (6, id, score)) := by
      rw [hskip 1 (by decide), hskip 2 (by decide), hskip 3 (by decide), hskip 4 (by decide),
        hskip 5 (by decide), hlast]
    have hlen : byteLen (byteTokenText 0x41) = 6 := by decide +kernel
    rw [encodePieceGreedy, encodePieceGreedyFrom, if_pos (by rw [hlen]; decide), sliceFrom,
      Outcome.orPanic, Outcome.ok_bind]
    dsimp only
    rw [hends, hbest, Outcome.ok_bind]
    dsimp only
    rw [hlen, encodePieceGreedyFrom, if_neg (by rw [hlen]; decide)]
    rfl
  have hencode : tokenizer.encode asciiClass (byteTokenText 0x41) false false = .ok [id] := by
    have hescape : escape (byteTokenText 0x41) = byteTokenText 0x41 := by decide +kernel
    rw [encode_eq, (encodeBody_raw hmodel hspace asciiClass _).2, if_pos hranks, hescape, hgreedy]
    rfl
  rw [hencode] at hids
  obtain rfl := Outcome.ok.inj hids
  simp only [decode, hmodel] at hdecode
  rw [decodeSpmFrom_text hwf hid, parseByteToken_byteTokenText] at hdecode
  have hshown : readableText [0x41] = ['A'] := by decide +kernel
  change Outcome.ok ([] ++ readableText [0x41]) = _ at hdecode
  rw [hshown] at hdecode
  exact absurd (Outcome.ok.inj hdecode) (by decide +kernel)

end Tokenizer

end CamelidEnterprise

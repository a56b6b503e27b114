import CamelidEnterprise.Engine.EncodeTotal

/-!
# Camelid Enterprise — what encoding fails with

Every error of `encode` says that the tokenizer's metadata is not what the text needs:
a token, or a byte token, that the vocabulary does not have. No other variant of the
engine's error type comes out of it, whatever the tokenizer.

* `encode_raises` — the errors of `encode`.
-/

namespace CamelidEnterprise

open Foundation Foundation.Text

namespace Tokenizer

/-- The one variant that the tokenizer raises on a text. -/
def MetadataError (e : EngineError) : Prop := ∃ message, e = .InvalidTokenizerMetadata message

variable {tokenizer : Tokenizer}

-- ---------------------------------------------------------------------------
-- The greedy match and the byte tokens
-- ---------------------------------------------------------------------------

theorem encodeUnknownSymbolBytes_raises (bytes : List UInt8) :
    (tokenizer.encodeUnknownSymbolBytes bytes).Raises MetadataError := by
  induction bytes with
  | nil => exact Outcome.raises_ok _
  | cons byte bytes ih =>
    exact (Outcome.raises_okOr _ ⟨_, rfl⟩).bind fun _ => ih.bind fun _ => Outcome.raises_ok _

theorem bestGreedy_raises (piece : Str) (byteStart : Nat) (ends : List Nat)
    (best : Option (Nat × TokenId × UInt32)) :
    (tokenizer.bestGreedy piece byteStart ends best).Raises MetadataError := by
  induction ends generalizing best with
  | nil => exact Outcome.raises_ok _
  | cons byteEnd ends ih =>
    rw [bestGreedy]
    refine (Outcome.raises_orPanic _).bind fun candidate => ?_
    split
    · exact ih best
    split
    · exact ih best
    refine (Outcome.raises_orPanic _).bind fun token => ?_
    split
    · dsimp only
      split
      · exact ih _
      · exact ih _
    · exact ih _

theorem encodePieceGreedyFrom_raises (piece : Str) (fuel byteStart : Nat) :
    (tokenizer.encodePieceGreedyFrom piece fuel byteStart).Raises MetadataError := by
  induction fuel generalizing byteStart with
  | zero => exact Outcome.raises_fault _
  | succ fuel ih =>
    rw [encodePieceGreedyFrom]
    split
    · refine (Outcome.raises_orPanic _).bind fun rest => ?_
      refine (bestGreedy_raises _ _ _ _).bind fun best => ?_
      split
      · exact (ih _).bind fun _ => Outcome.raises_ok _
      · exact (Outcome.raises_okOr _ ⟨_, rfl⟩).bind fun ch =>
          (encodeUnknownSymbolBytes_raises _).bind fun _ => (ih _).bind fun _ => Outcome.raises_ok _
    · exact Outcome.raises_ok _

-- ---------------------------------------------------------------------------
-- SentencePiece
-- ---------------------------------------------------------------------------

theorem bestSpmPair_raises (symbols : List Str) (idx : Nat) (best : Option (UInt32 × Nat)) :
    (tokenizer.bestSpmPair symbols idx best).Raises MetadataError := by
  induction symbols generalizing idx best with
  | nil => exact Outcome.raises_ok _
  | cons left symbols ih =>
    cases symbols with
    | nil => exact Outcome.raises_ok _
    | cons right rest =>
      rw [bestSpmPair]
      split
      · exact ih _ _
      split
      · exact ih _ _
      refine (Outcome.raises_orPanic _).bind fun token => ?_
      split
      · split
        · exact ih _ _
        · exact ih _ _
      · exact ih _ _

theorem mergeSpmFuel_raises (fuel : Nat) (symbols : List Str) :
    (tokenizer.mergeSpmFuel fuel symbols).Raises MetadataError := by
  induction fuel generalizing symbols with
  | zero => exact Outcome.raises_fault _
  | succ fuel ih =>
    rw [mergeSpmFuel]
    refine (bestSpmPair_raises _ _ _).bind fun best => ?_
    split
    · exact Outcome.raises_ok _
    · exact ih _

theorem resolveSpmSymbols_raises (byScore : Bool) (symbols : List Str) (unresolved : Str) :
    (tokenizer.resolveSpmSymbols byScore symbols unresolved).Raises MetadataError := by
  have hwaiting : ∀ unresolved : Str,
      (if unresolved.isEmpty then .ok [] else tokenizer.encodePieceGreedy unresolved :
        EngineResult (List TokenId)).Raises MetadataError := by
    intro unresolved
    split
    · exact Outcome.raises_ok _
    · exact encodePieceGreedyFrom_raises _ _ _
  induction symbols generalizing unresolved with
  | nil => exact hwaiting unresolved
  | cons symbol symbols ih =>
    rw [resolveSpmSymbols]
    split
    · exact ih _
    split
    · exact (hwaiting unresolved).bind fun _ => (ih []).bind fun _ => Outcome.raises_ok _
    · exact ih _

theorem encodeSpmSegment_raises (segment : Str) :
    (tokenizer.encodeSpmSegment segment).Raises MetadataError := by
  unfold encodeSpmSegment
  split
  · exact Outcome.raises_ok _
  split
  · exact (mergeSpmFuel_raises _ _).bind fun symbols => resolveSpmSymbols_raises _ _ _
  · obtain ⟨symbols, hsymbols, -⟩ := tokenizer.bpeRegistry.mergeSymbols_ok (segment.map fun ch => [ch])
    rw [hsymbols, Outcome.ok_bind]
    exact resolveSpmSymbols_raises _ _ _

theorem addDummyFrom_raises (text : Str) (fuel byteStart : Nat) :
    (tokenizer.addDummyFrom text fuel byteStart).Raises MetadataError := by
  induction fuel generalizing byteStart with
  | zero => exact Outcome.raises_fault _
  | succ fuel ih =>
    rw [addDummyFrom]
    split
    · split
      · refine (Outcome.raises_orPanic _).bind fun rest => (ih _).bind fun later => ?_
        split
        · exact Outcome.raises_ok _
        · exact Outcome.raises_ok _
      · have hchar : (expectChar text byteStart).Raises MetadataError :=
          ((Outcome.raises_orPanic _).bind fun _ => Outcome.raises_ok _).bind fun _ =>
            Outcome.raises_orPanic _
        exact hchar.bind fun _ => (ih _).bind fun _ => Outcome.raises_ok _
    · exact Outcome.raises_ok _

theorem normalizeSpmText_raises (text : Str) (parseSpecial : Bool) :
    (tokenizer.normalizeSpmText text parseSpecial).Raises MetadataError := by
  unfold normalizeSpmText
  split
  · exact Outcome.raises_ok _
  have hprefix : ∀ text, (tokenizer.addDummyPrefixAfterControlTokens text).Raises MetadataError := by
    intro text
    unfold addDummyPrefixAfterControlTokens
    split
    · exact Outcome.raises_ok _
    · exact addDummyFrom_raises _ _ _
  dsimp only
  split
  · exact Outcome.raises_ok _
  · exact hprefix _

theorem nextControlTokenStart_raises (text : Str) (byteStart : Nat) (includeControl : Bool) :
    (tokenizer.nextControlTokenStart text byteStart includeControl).Raises MetadataError :=
  (Outcome.raises_orPanic _).bind fun _ => Outcome.raises_ok _

theorem encodePieceFrom_raises (piece : Str) (parseSpecial : Bool) (fuel byteStart : Nat) :
    (tokenizer.encodePieceFrom piece parseSpecial fuel byteStart).Raises MetadataError := by
  induction fuel generalizing byteStart with
  | zero => exact Outcome.raises_fault _
  | succ fuel ih =>
    rw [encodePieceFrom]
    split
    · dsimp only
      split
      · have hdummy : ∀ special stop,
            (tokenizer.dummyAfterControl piece special stop).Raises MetadataError := by
          intro special stop
          refine (Outcome.raises_orPanic _).bind fun rest => ?_
          dsimp only
          split
          · exact Outcome.raises_ok _
          · exact Outcome.raises_ok _
        exact (hdummy _ _).bind fun _ => (ih _).bind fun _ => Outcome.raises_ok _
      · refine Outcome.Raises.bind ?_ fun next =>
          (Outcome.raises_orPanic _).bind fun segment => ?_
        · split
          · exact nextControlTokenStart_raises _ _ _
          · exact Outcome.raises_ok _
        · refine Outcome.Raises.bind ?_ fun ids => (ih _).bind fun _ => Outcome.raises_ok _
          split
          · exact encodePieceGreedyFrom_raises _ _ _
          · exact encodeSpmSegment_raises _
    · exact Outcome.raises_ok _

theorem encodePiece_raises (piece : Str) (parseSpecial : Bool) :
    (tokenizer.encodePiece piece parseSpecial).Raises MetadataError := by
  unfold encodePiece
  split
  · exact encodePieceGreedyFrom_raises _ _ _
  · exact encodePieceFrom_raises _ _ _ _

-- ---------------------------------------------------------------------------
-- GPT-2/BPE
-- ---------------------------------------------------------------------------

theorem symbolIds_raises (symbols : List Str) :
    (tokenizer.symbolIds symbols).Raises MetadataError := by
  induction symbols with
  | nil => exact Outcome.raises_ok _
  | cons symbol symbols ih =>
    exact (Outcome.raises_okOr _ ⟨_, rfl⟩).bind fun _ => ih.bind fun _ => Outcome.raises_ok _

theorem encodeBpeSegments_raises (segments : List Str) :
    (tokenizer.encodeBpeSegments segments).Raises MetadataError := by
  induction segments with
  | nil => exact Outcome.raises_ok _
  | cons segment segments ih =>
    refine Outcome.Raises.bind ?_ fun _ => ih.bind fun _ => Outcome.raises_ok _
    unfold encodeBpeSegment
    split
    · exact Outcome.raises_ok _
    · obtain ⟨symbols, hsymbols, -⟩ := tokenizer.bpeRegistry.mergeSymbols_ok
        ((Utf8.encode segment).map fun byte => [bpeByteToChar byte])
      rw [hsymbols, Outcome.ok_bind]
      exact symbolIds_raises symbols

theorem encodeBpeFrom_raises (cls : CharClass) (text : Str) (parseSpecial : Bool)
    (fuel byteStart : Nat) :
    (tokenizer.encodeBpeFrom cls text parseSpecial fuel byteStart).Raises MetadataError := by
  induction fuel generalizing byteStart with
  | zero => exact Outcome.raises_fault _
  | succ fuel ih =>
    rw [encodeBpeFrom]
    split
    · split
      · exact (ih _).bind fun _ => Outcome.raises_ok _
      · refine (nextControlTokenStart_raises _ _ _).bind fun next =>
          (Outcome.raises_orPanic _).bind fun piece => ?_
        -- the pre-tokenizer always returns
        obtain ⟨segments, hsegments⟩ := @bpePretokenizeFrom_ok cls
          tokenizer.bpePreTokenizer.digitGroupMax tokenizer.bpePreTokenizer.foldMarks
          (digitGroupMax_pos _) [] piece _ (Nat.lt_succ_self _)
        have hcut : bpePretokenizeWith cls piece tokenizer.bpePreTokenizer.digitGroupMax
            tokenizer.bpePreTokenizer.foldMarks = .ok segments := hsegments
        rw [hcut, Outcome.ok_bind]
        exact (encodeBpeSegments_raises segments).bind fun _ => (ih _).bind fun _ =>
          Outcome.raises_ok _
    · exact Outcome.raises_ok _

-- ---------------------------------------------------------------------------
-- Both families
-- ---------------------------------------------------------------------------

/-- Whatever the tokenizer, its errors are about its own metadata. -/
theorem encode_raises (cls : CharClass) (tokenizer : Tokenizer) (text : Str)
    (addSpecial parseSpecial : Bool) :
    (tokenizer.encode cls text addSpecial parseSpecial).Raises MetadataError := by
  refine Outcome.Raises.bind ?_ fun _ => Outcome.raises_ok _
  unfold encodeBody
  split
  · refine (normalizeSpmText_raises _ _).bind fun normalized => ?_
    split
    · exact Outcome.raises_ok _
    · exact encodePiece_raises _ _
  · split
    · exact Outcome.raises_ok _
    · exact encodeBpeFrom_raises _ _ _ _ _

end Tokenizer

end CamelidEnterprise

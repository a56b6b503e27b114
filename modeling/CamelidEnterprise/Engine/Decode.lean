import CamelidEnterprise.Engine.Encode

/-!
# Camelid Enterprise — decoding token ids, all at once and one by one

`decode` of either family, and the `IncrementalDecoder` that streams it: every
push decodes the whole id sequence again and returns what the new text adds to
the text already emitted. That is only sound if decoding never takes back what
it has shown, whatever is decoded next:

* `decode_prefixMonotone` — decoding a longer sequence extends the text of a
  shorter one, through unfinished characters, byte-fallback runs and skipped
  special tokens;
* `incrementalDecoder_run` — after any sequence of pushes, failing ones included,
  the decoder is exactly where one `decode` of its ids would be.
-/

namespace CamelidEnterprise

open Foundation Foundation.Text

/-- The text a byte string is read as: all of it, or what comes before its first
bad byte. -/
def readableText (bytes : List UInt8) : Str :=
  match Utf8.fromUtf8 bytes with
  | some text => text
  | none => (Utf8.fromUtf8 (bytes.take (Utf8.validUpTo bytes))).getD []

theorem readableText_eq (bytes : List UInt8) : readableText bytes = Utf8.decodePrefix bytes := by
  unfold readableText
  split
  · rename_i text htext
    rw [Utf8.fromUtf8_eq_some.mp htext, Utf8.decodePrefix_encode]
  · rw [Utf8.fromUtf8_take_validUpTo, Option.getD_some]

theorem readableText_mono {bytes more : List UInt8} (h : bytes <+: more) :
    readableText bytes <+: readableText more := by
  rw [readableText_eq, readableText_eq]
  exact Utf8.decodePrefix_mono h

/-- A decoding of sequences into texts never takes back what it has shown. -/
def PrefixMonotone {τ χ ε : Type} (decode : List τ → Outcome ε (List χ)) : Prop :=
  ∀ xs ys text, decode (xs ++ ys) = .ok text → ∃ shown, decode xs = .ok shown ∧ shown <+: text

namespace Tokenizer

/-- `is_special` -/
def isSpecial (tokenizer : Tokenizer) (id : TokenId) : Bool :=
  tokenizer.special.bos == some id || tokenizer.special.eos == some id ||
    tokenizer.special.eot == some id || tokenizer.special.eom == some id ||
    tokenizer.special.sep == some id || tokenizer.special.pad == some id ||
    tokenizer.special.mask == some id

/-- The token that one id contributes to a decoding, where it contributes one. -/
def visibleToken (tokenizer : Tokenizer) (removeSpecial : Bool) (id : TokenId) :
    EngineResult (Option Token) :=
  if removeSpecial && tokenizer.isSpecial id then
    .ok none
  else do
    let token ← Outcome.okOr (.InvalidTokenizerMetadata s!"token id {id} out of range")
      tokenizer.tokens[id]?
    if removeSpecial && (token.kind == .Control || isChatControlMarker token) then .ok none
    else .ok (some token)

/-- The loop of `decode`: `bytes` is the byte-token run not yet flushed. -/
def decodeSpmFrom (tokenizer : Tokenizer) (removeSpecial : Bool) :
    List TokenId → List UInt8 → Str → EngineResult Str
  | [], bytes, text => .ok (text ++ readableText bytes)
  | id :: ids, bytes, text => do
    match ← tokenizer.visibleToken removeSpecial id with
    | none => decodeSpmFrom tokenizer removeSpecial ids bytes text
    | some token =>
      match parseByteToken token.text with
      | some byte => decodeSpmFrom tokenizer removeSpecial ids (bytes ++ [byte]) text
      | none =>
        decodeSpmFrom tokenizer removeSpecial ids []
          (text ++ readableText bytes ++ token.text.map fun ch => if ch = spmSpace then ' ' else ch)

/-- The `for ch in token.text.chars()` loop of `decode_bpe`. -/
def tokenBytes (removeSpecial : Bool) (token : Token) : Str → EngineResult (List UInt8)
  | [] => .ok []
  | ch :: chs =>
    match bpeCharToByte ch with
    | some byte => do
      let bytes ← tokenBytes removeSpecial token chs
      .ok (byte :: bytes)
    | none =>
      if !removeSpecial || token.kind != .Control then
        .err (.InvalidTokenizerMetadata
          s!"GPT-2/BPE token {debug token.text} contains non-byte character {debugChar ch}")
      else
        tokenBytes removeSpecial token chs

/-- The loop of `decode_bpe` over the ids. -/
def bpeBytes (tokenizer : Tokenizer) (removeSpecial : Bool) :
    List TokenId → EngineResult (List UInt8)
  | [] => .ok []
  | id :: ids => do
    match ← tokenizer.visibleToken removeSpecial id with
    | none => bpeBytes tokenizer removeSpecial ids
    | some token =>
      let bytes ← tokenBytes removeSpecial token token.text
      let later ← bpeBytes tokenizer removeSpecial ids
      .ok (bytes ++ later)

/-- `decode_bpe` -/
def decodeBpe (tokenizer : Tokenizer) (ids : List TokenId) (removeSpecial : Bool) :
    EngineResult Str := do
  let bytes ← tokenizer.bpeBytes removeSpecial ids
  .ok (readableText bytes)

/-- `decode` -/
def decode (tokenizer : Tokenizer) (ids : List TokenId) (removeSpecial : Bool) :
    EngineResult Str :=
  match tokenizer.model with
  | .Gpt2Bpe => tokenizer.decodeBpe ids removeSpecial
  | .LlamaSpm => tokenizer.decodeSpmFrom removeSpecial ids [] []

/-! ## Decoding is prefix-monotone -/

/-- Whatever follows, the text so far and the readable part of the open byte run
are already settled. -/
theorem decodeSpmFrom_extends {tokenizer : Tokenizer} {removeSpecial : Bool}
    {ids : List TokenId} {bytes : List UInt8} {text result : Str}
    (h : tokenizer.decodeSpmFrom removeSpecial ids bytes text = .ok result) :
    text ++ readableText bytes <+: result := by
  induction ids generalizing bytes text with
  | nil =>
    obtain rfl := Outcome.ok.inj h
    exact List.prefix_refl _
  | cons id ids ih =>
    obtain ⟨visible, -, h⟩ := Outcome.bind_eq_ok.mp h
    cases visible with
    | none => exact ih h
    | some token =>
      dsimp only at h
      split at h
      · -- a byte token lengthens the run, which keeps its readable characters
        rename_i byte hbyte
        have hrun := readableText_mono (List.prefix_append bytes [byte])
        exact ((List.prefix_append_right_inj text).mpr hrun).trans (ih h)
      · -- a text token flushes the run as it stands
        have hflushed := ih h
        rw [show readableText [] = [] from rfl, List.append_nil] at hflushed
        exact (List.prefix_append _ _).trans hflushed

theorem decodeSpmFrom_append {tokenizer : Tokenizer} {removeSpecial : Bool}
    {ids more : List TokenId} {bytes : List UInt8} {text result : Str}
    (h : tokenizer.decodeSpmFrom removeSpecial (ids ++ more) bytes text = .ok result) :
    ∃ shown, tokenizer.decodeSpmFrom removeSpecial ids bytes text = .ok shown ∧
      shown <+: result := by
  induction ids generalizing bytes text with
  | nil => exact ⟨_, rfl, decodeSpmFrom_extends h⟩
  | cons id ids ih =>
    obtain ⟨visible, hvisible, h⟩ := Outcome.bind_eq_ok.mp h
    rw [decodeSpmFrom, hvisible, Outcome.ok_bind]
    cases visible with
    | none => exact ih h
    | some token =>
      dsimp only at h ⊢
      split at h
      · exact ih h
      · exact ih h

theorem bpeBytes_append {tokenizer : Tokenizer} {removeSpecial : Bool} {ids more : List TokenId}
    {bytes : List UInt8} (h : tokenizer.bpeBytes removeSpecial (ids ++ more) = .ok bytes) :
    ∃ front later, tokenizer.bpeBytes removeSpecial ids = .ok front ∧
      tokenizer.bpeBytes removeSpecial more = .ok later ∧ bytes = front ++ later := by
  induction ids generalizing bytes with
  | nil => exact ⟨[], bytes, rfl, h, rfl⟩
  | cons id ids ih =>
    obtain ⟨visible, hvisible, h⟩ := Outcome.bind_eq_ok.mp h
    rw [bpeBytes, hvisible, Outcome.ok_bind]
    cases visible with
    | none => exact ih h
    | some token =>
      obtain ⟨own, hown, h⟩ := Outcome.bind_eq_ok.mp h
      obtain ⟨rest, hrest, h⟩ := Outcome.bind_eq_ok.mp h
      obtain ⟨front, later, hfront, hlater, rfl⟩ := ih hrest
      obtain rfl := Outcome.ok.inj h
      refine ⟨own ++ front, later, ?_, hlater, (List.append_assoc _ _ _).symm⟩
      dsimp only
      rw [hown, Outcome.ok_bind, hfront, Outcome.ok_bind]

/-- **Key lemma.** Both decoders only ever extend what a shorter sequence gave. -/
theorem decode_prefixMonotone (tokenizer : Tokenizer) (removeSpecial : Bool) :
    PrefixMonotone fun ids => tokenizer.decode ids removeSpecial := by
  intro ids more text h
  cases hmodel : tokenizer.model with
  | LlamaSpm =>
    simp only [decode, hmodel] at h ⊢
    exact decodeSpmFrom_append h
  | Gpt2Bpe =>
    simp only [decode, hmodel] at h ⊢
    obtain ⟨bytes, hbytes, h⟩ := Outcome.bind_eq_ok.mp h
    obtain ⟨front, later, hfront, -, rfl⟩ := bpeBytes_append hbytes
    obtain rfl := Outcome.ok.inj h
    refine ⟨readableText front, ?_, readableText_mono (List.prefix_append front later)⟩
    rw [decodeBpe, hfront, Outcome.ok_bind]

@[simp] theorem decode_nil (tokenizer : Tokenizer) (removeSpecial : Bool) :
    tokenizer.decode [] removeSpecial = .ok [] := by
  cases hmodel : tokenizer.model with
  | LlamaSpm => simp only [decode, hmodel]; rfl
  | Gpt2Bpe => simp only [decode, hmodel]; rfl

/-! ## What decoding can fail with -/

/-- The only errors decoding returns: an id outside the vocabulary, or a token
that is not spelled in the byte alphabet. -/
def DecodeError (e : EngineError) : Prop :=
  (∃ id : TokenId, e = .InvalidTokenizerMetadata s!"token id {id} out of range") ∨
  ∃ text ch, e = .InvalidTokenizerMetadata
    s!"GPT-2/BPE token {debug text} contains non-byte character {debugChar ch}"

/-- A computation that returns, and whose errors are decoding's own. -/
def DecodesSafely {α : Type} (x : EngineResult α) : Prop :=
  x.NoFault ∧ ∀ e, x = .err e → DecodeError e

theorem DecodesSafely.ok {α : Type} (a : α) : DecodesSafely (.ok a : EngineResult α) :=
  ⟨Outcome.noFault_ok a, fun _ h => by cases h⟩

theorem DecodesSafely.bind {α β : Type} {x : EngineResult α} {f : α → EngineResult β}
    (hx : DecodesSafely x) (hf : ∀ a, DecodesSafely (f a)) : DecodesSafely (x >>= f) := by
  cases x with
  | ok a => exact hf a
  | err e =>
    refine ⟨Outcome.noFault_err e, ?_⟩
    intro e' h
    obtain rfl := Outcome.err.inj h
    exact hx.2 e rfl
  | fault k => exact absurd rfl (hx.1 k)

theorem visibleToken_safe (tokenizer : Tokenizer) (removeSpecial : Bool) (id : TokenId) :
    DecodesSafely (tokenizer.visibleToken removeSpecial id) := by
  unfold visibleToken
  split
  · exact DecodesSafely.ok none
  refine DecodesSafely.bind ⟨Outcome.noFault_okOr _ _, ?_⟩ fun token => ?_
  · intro e h
    cases htoken : tokenizer.tokens[id]? with
    | none =>
      rw [htoken] at h
      exact Or.inl ⟨id, (Outcome.err.inj h).symm⟩
    | some token =>
      rw [htoken] at h
      cases h
  · split
    · exact DecodesSafely.ok none
    · exact DecodesSafely.ok (some token)

theorem decodeSpmFrom_safe (tokenizer : Tokenizer) (removeSpecial : Bool) (ids : List TokenId)
    (bytes : List UInt8) (text : Str) :
    DecodesSafely (tokenizer.decodeSpmFrom removeSpecial ids bytes text) := by
  induction ids generalizing bytes text with
  | nil => exact DecodesSafely.ok _
  | cons id ids ih =>
    refine (visibleToken_safe tokenizer removeSpecial id).bind fun visible => ?_
    cases visible with
    | none => exact ih bytes text
    | some token =>
      dsimp only
      split
      · exact ih _ _
      · exact ih _ _

theorem tokenBytes_safe (removeSpecial : Bool) (token : Token) (chs : Str) :
    DecodesSafely (tokenBytes removeSpecial token chs) := by
  induction chs with
  | nil => exact DecodesSafely.ok []
  | cons ch chs ih =>
    rw [tokenBytes]
    split
    · exact ih.bind fun _ => DecodesSafely.ok _
    · split
      · refine ⟨Outcome.noFault_err _, ?_⟩
        intro e h
        exact Or.inr ⟨token.text, ch, (Outcome.err.inj h).symm⟩
      · exact ih

theorem bpeBytes_safe (tokenizer : Tokenizer) (removeSpecial : Bool) (ids : List TokenId) :
    DecodesSafely (tokenizer.bpeBytes removeSpecial ids) := by
  induction ids with
  | nil => exact DecodesSafely.ok []
  | cons id ids ih =>
    refine (visibleToken_safe tokenizer removeSpecial id).bind fun visible => ?_
    cases visible with
    | none => exact ih
    | some token =>
      exact (tokenBytes_safe removeSpecial token token.text).bind fun _ =>
        ih.bind fun _ => DecodesSafely.ok _

/-- Decoding has no panic, and its errors name a bad id or a bad token. -/
theorem decode_safe (tokenizer : Tokenizer) (ids : List TokenId) (removeSpecial : Bool) :
    DecodesSafely (tokenizer.decode ids removeSpecial) := by
  cases hmodel : tokenizer.model with
  | LlamaSpm =>
    simp only [decode, hmodel]
    exact decodeSpmFrom_safe tokenizer removeSpecial ids [] []
  | Gpt2Bpe =>
    simp only [decode, hmodel]
    exact (bpeBytes_safe tokenizer removeSpecial ids).bind fun _ => DecodesSafely.ok _

end Tokenizer

/-! ## The incremental decoder -/

/-- `IncrementalDecoder`, over a tokenizer that is passed to its methods. -/
structure IncrementalDecoder where
  tokenIds : List TokenId
  emitted : Str
  removeSpecial : Bool
deriving DecidableEq, Repr

/-- `incremental_decoder` -/
def Tokenizer.incrementalDecoder (removeSpecial : Bool) : IncrementalDecoder :=
  ⟨[], [], removeSpecial⟩

namespace IncrementalDecoder

/-- The error of a push whose re-decode does not extend the emitted text. -/
def changedEmittedError : EngineError :=
  .InvalidTokenizerMetadata "incremental decode changed an already-emitted text prefix"

/-- `push`: its result, and the decoder after it. -/
def push (tokenizer : Tokenizer) (decoder : IncrementalDecoder) (id : TokenId) :
    EngineResult Str × IncrementalDecoder :=
  let tokenIds := decoder.tokenIds ++ [id]
  match tokenizer.decode tokenIds decoder.removeSpecial with
  | .ok decoded =>
    match stripPrefix decoder.emitted decoded with
    | some delta => (.ok delta, { decoder with tokenIds, emitted := decoded })
    | none => (.err changedEmittedError, { decoder with tokenIds := tokenIds.dropLast })
  | .err error => (.err error, { decoder with tokenIds := tokenIds.dropLast })
  | .fault kind => (.fault kind, { decoder with tokenIds })

/-- A sequence of pushes: what each returned, and the decoder after the last. -/
def pushAll (tokenizer : Tokenizer) :
    IncrementalDecoder → List TokenId → List (EngineResult Str) × IncrementalDecoder
  | decoder, [] => ([], decoder)
  | decoder, id :: ids =>
    let (result, decoder) := decoder.push tokenizer id
    let (results, decoder) := pushAll tokenizer decoder ids
    (result :: results, decoder)

/-- The deltas among the results of a sequence of pushes. -/
def deltas (results : List (EngineResult Str)) : List Str :=
  results.filterMap fun
    | .ok delta => some delta
    | _ => none

/-- The ids whose push returned a delta. -/
def acceptedIds : List TokenId → List (EngineResult Str) → List TokenId
  | id :: ids, .ok _ :: results => id :: acceptedIds ids results
  | _ :: ids, _ :: results => acceptedIds ids results
  | _, _ => []

/-- The decoder's text is what its ids decode to. -/
def Synced (tokenizer : Tokenizer) (decoder : IncrementalDecoder) : Prop :=
  tokenizer.decode decoder.tokenIds decoder.removeSpecial = .ok decoder.emitted

theorem stripPrefix_append (lead rest : Str) : stripPrefix lead (lead ++ rest) = some rest := by
  unfold stripPrefix
  rw [if_pos (List.isPrefixOf_iff_prefix.mpr (List.prefix_append lead rest)), List.drop_left]

/-- The two decoding messages and this one differ in their first character. -/
theorem changedEmittedError_not_decodeError : ¬ Tokenizer.DecodeError changedEmittedError := by
  have hstring : ∀ s : String, toString s = s := fun _ => rfl
  rintro (⟨id, h⟩ | ⟨text, ch, h⟩)
  · have hmsg := congrArg String.toList (EngineError.InvalidTokenizerMetadata.inj h)
    have hhead := congrArg List.head? hmsg
    simp [hstring] at hhead
  · have hmsg := congrArg String.toList (EngineError.InvalidTokenizerMetadata.inj h)
    have hhead := congrArg List.head? hmsg
    simp [hstring] at hhead

/-- What a push does to a decoder in step with its ids: it shows more text and
takes the id, or it fails with a decoding error and is as it was. -/
theorem push_cases {tokenizer : Tokenizer} {decoder : IncrementalDecoder}
    (hsync : decoder.Synced tokenizer) (id : TokenId) :
    (∃ delta, decoder.push tokenizer id =
      (.ok delta, { decoder with
        tokenIds := decoder.tokenIds ++ [id]
        emitted := decoder.emitted ++ delta })) ∨
    ∃ e, Tokenizer.DecodeError e ∧ decoder.push tokenizer id = (.err e, decoder) := by
  have hsafe := Tokenizer.decode_safe tokenizer (decoder.tokenIds ++ [id]) decoder.removeSpecial
  cases hdecode : tokenizer.decode (decoder.tokenIds ++ [id]) decoder.removeSpecial with
  | ok decoded =>
    -- the re-decode extends what the decoder has emitted
    obtain ⟨shown, hshown, delta, rfl⟩ :=
      Tokenizer.decode_prefixMonotone tokenizer decoder.removeSpecial _ [id] decoded hdecode
    obtain rfl : decoder.emitted = shown := Outcome.ok.inj (hsync.symm.trans hshown)
    refine Or.inl ⟨delta, ?_⟩
    simp only [push, hdecode, stripPrefix_append]
  | err e =>
    refine Or.inr ⟨e, hsafe.2 e hdecode, ?_⟩
    simp only [push, hdecode, List.dropLast_concat]
  | fault kind => exact absurd hdecode (hsafe.1 kind)

theorem push_synced {tokenizer : Tokenizer} {decoder : IncrementalDecoder} {id : TokenId}
    {delta : Str} {next : IncrementalDecoder} (h : decoder.push tokenizer id = (.ok delta, next)) :
    next.Synced tokenizer := by
  cases hdecode : tokenizer.decode (decoder.tokenIds ++ [id]) decoder.removeSpecial with
  | ok decoded =>
    simp only [push, hdecode] at h
    split at h
    · obtain ⟨-, rfl⟩ := Prod.mk.inj h
      exact hdecode
    · cases h
  | err e =>
    simp only [push, hdecode] at h
    cases h
  | fault kind =>
    simp only [push, hdecode] at h
    cases h

/-- What holds after a sequence of pushes that `start` entered in step. -/
structure RunFrom (tokenizer : Tokenizer) (start : IncrementalDecoder) (ids : List TokenId)
    (results : List (EngineResult Str)) (final : IncrementalDecoder) : Prop where
  synced : final.Synced tokenizer
  tokenIds : final.tokenIds = start.tokenIds ++ acceptedIds ids results
  removeSpecial : final.removeSpecial = start.removeSpecial
  emitted : final.emitted = start.emitted ++ (deltas results).flatten
  results : ∀ result ∈ results, result.NoFault ∧ result ≠ .err changedEmittedError

/-- By induction on the pushes; `push_cases` is the step. -/
theorem pushAll_runFrom {tokenizer : Tokenizer} {start : IncrementalDecoder}
    (hsync : start.Synced tokenizer) (ids : List TokenId) :
    RunFrom tokenizer start ids (start.pushAll tokenizer ids).1
      (start.pushAll tokenizer ids).2 := by
  induction ids generalizing start with
  | nil =>
    exact ⟨hsync, (List.append_nil _).symm, rfl, (List.append_nil _).symm,
      fun result h => absurd h List.not_mem_nil⟩
  | cons id ids ih =>
    rcases push_cases hsync id with ⟨delta, hpush⟩ | ⟨e, he, hpush⟩
    · have hrest := ih (push_synced hpush)
      simp only [pushAll, hpush]
      refine ⟨hrest.synced, ?_, hrest.removeSpecial, ?_, ?_⟩
      · rw [hrest.tokenIds, acceptedIds, List.append_assoc, List.singleton_append]
      · rw [hrest.emitted]
        show (start.emitted ++ delta) ++ _ = start.emitted ++ (delta ++ _)
        rw [List.append_assoc]
        rfl
      · intro result hresult
        rcases List.mem_cons.mp hresult with rfl | hresult
        · exact ⟨Outcome.noFault_ok delta, fun h => by cases h⟩
        · exact hrest.results result hresult
    · have hrest := ih hsync
      simp only [pushAll, hpush]
      refine ⟨hrest.synced, hrest.tokenIds, hrest.removeSpecial, hrest.emitted, ?_⟩
      intro result hresult
      rcases List.mem_cons.mp hresult with rfl | hresult
      · refine ⟨Outcome.noFault_err e, ?_⟩
        intro h
        obtain rfl := Outcome.err.inj h
        exact changedEmittedError_not_decodeError he
      · exact hrest.results result hresult

/-- **Incremental decoding.** For a tokenizer of either family and any sequence of
pushes: the ids held are the accepted ones, the text is what they decode to, and the
deltas spell it; no
push reports a changed text; a further push that fails changes nothing; and the
reason is that decoding is prefix-monotone. -/
theorem incrementalDecoder_run (tokenizer : Tokenizer) (removeSpecial : Bool)
    (ids : List TokenId) :
    let run := (Tokenizer.incrementalDecoder removeSpecial).pushAll tokenizer ids
    run.2.tokenIds = acceptedIds ids run.1 ∧
    tokenizer.decode run.2.tokenIds removeSpecial = .ok run.2.emitted ∧
    (deltas run.1).flatten = run.2.emitted ∧
    (∀ result ∈ run.1, result.NoFault ∧ result ≠ .err changedEmittedError) ∧
    (∀ id, (∃ delta, (run.2.push tokenizer id).1 = .ok delta) ∨
      (run.2.push tokenizer id).2 = run.2) ∧
    PrefixMonotone (fun ids => tokenizer.decode ids removeSpecial) := by
  intro run
  have hstart : (Tokenizer.incrementalDecoder removeSpecial).Synced tokenizer :=
    Tokenizer.decode_nil tokenizer removeSpecial
  have hfrom : RunFrom tokenizer _ ids run.1 run.2 := pushAll_runFrom hstart ids
  have hflag : run.2.removeSpecial = removeSpecial := hfrom.removeSpecial
  refine ⟨hfrom.tokenIds, ?_, hfrom.emitted.symm, hfrom.results, ?_,
    Tokenizer.decode_prefixMonotone tokenizer removeSpecial⟩
  · rw [← hflag]
    exact hfrom.synced
  · intro id
    rcases push_cases hfrom.synced id with ⟨delta, hpush⟩ | ⟨e, -, hpush⟩
    · exact Or.inl ⟨delta, congrArg Prod.fst hpush⟩
    · exact Or.inr (congrArg Prod.snd hpush)

end IncrementalDecoder

end CamelidEnterprise

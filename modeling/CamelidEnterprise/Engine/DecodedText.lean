import Mathlib.Data.List.ReduceOption
import CamelidEnterprise.Engine.Runtime

/-!
# Camelid Enterprise — what decoded text shows of its tokens

`decode` strips some tokens and shows the bytes of the others, as far as they can be
read. Two results on what is lost on the way:

* `decode_tail_iff` — a byte-level decoding loses no more than an unfinished last
  character exactly when the bytes of its tokens are the beginning of a text; after an
  ill-formed byte everything is lost;
* `eog_hidden_iff` — an end-of-generation token leaves no trace in the text exactly
  when `decode` strips it, which it does by other marks than the ones that put a token
  into the end-of-generation set.
-/

namespace CamelidEnterprise

open Foundation Foundation.Text

namespace Tokenizer

variable {tokenizer : Tokenizer}

-- ---------------------------------------------------------------------------
-- The tokens that are shown
-- ---------------------------------------------------------------------------

/-- `decode` leaves the token of this id out when it removes special tokens. -/
def strips (tokenizer : Tokenizer) (id : TokenId) : Bool :=
  tokenizer.isSpecial id ||
    tokenizer.tokens[id]?.any fun token => token.kind == .Control || isChatControlMarker token

/-- The bytes that the tokens of a sequence spell, without the stripped ones. -/
def shownBytes (tokenizer : Tokenizer) (removeSpecial : Bool) (ids : List TokenId) : List UInt8 :=
  (ids.filter fun id => !(removeSpecial && tokenizer.strips id)).flatMap fun id =>
    ((tokenizer.tokenText (some id)).getD []).filterMap bpeCharToByte

theorem visibleToken_stripped {id : TokenId} (hrange : id < tokenizer.tokens.length)
    (h : tokenizer.strips id = true) : tokenizer.visibleToken true id = .ok none := by
  unfold visibleToken
  unfold strips at h
  by_cases hspecial : tokenizer.isSpecial id = true
  · rw [Bool.true_and, if_pos hspecial]
  · rw [Bool.true_and, if_neg hspecial, List.getElem?_eq_getElem hrange]
    rw [List.getElem?_eq_getElem hrange, Option.any_some] at h
    have hmark := (Bool.or_eq_true _ _).mp h
    rw [Outcome.okOr_some, Outcome.ok_bind, Bool.true_and, if_pos (hmark.resolve_left hspecial)]

theorem visibleToken_eq_ok {removeSpecial : Bool} {id : TokenId} {visible : Option Token}
    (h : tokenizer.visibleToken removeSpecial id = .ok visible) :
    (removeSpecial && tokenizer.strips id) = true ∧ visible = none ∨
      (removeSpecial && tokenizer.strips id) = false ∧
        ∃ token, tokenizer.tokens[id]? = some token ∧ visible = some token := by
  unfold visibleToken at h
  cases removeSpecial with
  | false =>
    obtain ⟨token, htoken, h⟩ := Outcome.bind_eq_ok.mp h
    exact Or.inr ⟨rfl, token, Outcome.okOr_eq_ok.mp htoken, (Outcome.ok.inj h).symm⟩
  | true =>
    unfold strips
    simp only [Bool.true_and] at h ⊢
    split at h
    · rename_i hspecial
      refine Or.inl ⟨?_, (Outcome.ok.inj h).symm⟩
      rw [hspecial, Bool.true_or]
    · rename_i hspecial
      obtain ⟨token, htoken, h⟩ := Outcome.bind_eq_ok.mp h
      have hlookup := Outcome.okOr_eq_ok.mp htoken
      rw [hlookup, Option.any_some, Bool.eq_false_iff.mpr hspecial, Bool.false_or]
      split at h
      · rename_i hmark
        exact Or.inl ⟨hmark, (Outcome.ok.inj h).symm⟩
      · rename_i hmark
        exact Or.inr ⟨Bool.eq_false_iff.mpr hmark, token, rfl, (Outcome.ok.inj h).symm⟩

theorem tokenBytes_shown {removeSpecial : Bool} {token : Token} {text : Str} {bytes : List UInt8}
    (h : tokenBytes removeSpecial token text = .ok bytes) :
    bytes = text.filterMap bpeCharToByte := by
  induction text generalizing bytes with
  | nil => exact (Outcome.ok.inj h).symm
  | cons ch chs ih =>
    rw [tokenBytes] at h
    split at h
    · rename_i byte hbyte
      obtain ⟨rest, hrest, h⟩ := Outcome.bind_eq_ok.mp h
      obtain rfl := Outcome.ok.inj h
      rw [List.filterMap_cons_some hbyte, ih hrest]
    · rename_i hbyte
      split at h
      · cases h
      · rw [List.filterMap_cons_none hbyte, ih h]

theorem bpeBytes_shown {removeSpecial : Bool} {ids : List TokenId} {bytes : List UInt8}
    (h : tokenizer.bpeBytes removeSpecial ids = .ok bytes) :
    bytes = tokenizer.shownBytes removeSpecial ids := by
  induction ids generalizing bytes with
  | nil => exact (Outcome.ok.inj h).symm
  | cons id ids ih =>
    obtain ⟨visible, hvisible, h⟩ := Outcome.bind_eq_ok.mp h
    unfold shownBytes
    rcases visibleToken_eq_ok hvisible with ⟨hstrips, rfl⟩ | ⟨hshown, token, htoken, rfl⟩
    · rw [List.filter_cons_of_neg (by rw [hstrips]; decide)]
      exact ih h
    · obtain ⟨own, hown, h⟩ := Outcome.bind_eq_ok.mp h
      obtain ⟨later, hlater, h⟩ := Outcome.bind_eq_ok.mp h
      obtain rfl := Outcome.ok.inj h
      rw [List.filter_cons_of_pos (by rw [hshown]; rfl), List.flatMap_cons, tokenBytes_shown hown,
        ih hlater]
      have htext : tokenizer.tokenText (some id) = some token.text := by
        rw [tokenText, Option.bind_some, htoken]
        rfl
      rw [htext]
      rfl

-- ---------------------------------------------------------------------------
-- The tail of a byte-level decoding
-- ---------------------------------------------------------------------------

/-- What the text of a byte-level decoding leaves of the bytes of its tokens. -/
theorem decode_tail {removeSpecial : Bool} {ids : List TokenId} {text : Str}
    (hmodel : tokenizer.model = .Gpt2Bpe) (h : tokenizer.decode ids removeSpecial = .ok text) :
    text = Utf8.decodePrefix (tokenizer.shownBytes removeSpecial ids) := by
  simp only [decode, hmodel] at h
  obtain ⟨bytes, hbytes, h⟩ := Outcome.bind_eq_ok.mp h
  rw [← bpeBytes_shown hbytes, ← readableText_eq]
  exact (Outcome.ok.inj h).symm

/-- **Decoding loses at most an unfinished last character** exactly when the bytes of
the tokens shown are the beginning of some text. -/
theorem decode_tail_iff {tokenizer : Tokenizer} (hmodel : tokenizer.model = .Gpt2Bpe)
    {ids : List TokenId} {removeSpecial : Bool} {text : Str}
    (h : tokenizer.decode ids removeSpecial = .ok text) :
    (∃ tail, tokenizer.shownBytes removeSpecial ids = Utf8.encode text ++ tail ∧
        Utf8.Unfinished tail ∧ tail.length ≤ 3) ↔
      ∃ whole, tokenizer.shownBytes removeSpecial ids <+: Utf8.encode whole := by
  rw [Utf8.prefix_encode_iff, ← decode_tail hmodel h]
  constructor
  · rintro ⟨tail, hbytes, htail, -⟩
    exact ⟨tail, hbytes, htail⟩
  · rintro ⟨tail, hbytes, htail⟩
    exact ⟨tail, hbytes, htail, htail.length_le⟩

/-- A byte-level header with these tokens, of kind `Normal` where no kinds are given. -/
def byteLevelFile (texts : List Str) (kinds : Option (List Gguf.MetadataValue)) : Gguf.GgufFile where
  version := 3
  tensorCount := 0
  metadataCount := 4
  alignment := 32
  dataStartOffset := 0
  metadata :=
    let plain :=
      (((∅ : Gguf.Metadata).insert "tokenizer.ggml.model".toList (.String "gpt2".toList)).insert
        "tokenizer.ggml.pre".toList (.String "llama-bpe".toList)).insert
        "tokenizer.ggml.tokens".toList (.Array (texts.map .String))
    match kinds with
    | some kinds => plain.insert "tokenizer.ggml.token_type".toList (.Array kinds)
    | none => plain
  tensors := []

/-- The first byte of a character of two bytes is held back. -/
theorem decode_tail_heldBack :
    ∃ tokenizer, Tokenizer.fromGguf (byteLevelFile [['a'], ['Ã']] none) = .ok tokenizer ∧
      tokenizer.decode [0, 1] false = .ok ['a'] ∧
      ∃ tail, tokenizer.shownBytes false [0, 1] = Utf8.encode ['a'] ++ tail ∧
        Utf8.Unfinished tail ∧ tail.length ≤ 3 := by
  have hrun : (Tokenizer.fromGguf (byteLevelFile [['a'], ['Ã']] none) >>= fun tokenizer =>
      (.ok (tokenizer.model, tokenizer.decode [0, 1] false, tokenizer.shownBytes false [0, 1]) :
        EngineResult _)) = .ok (.Gpt2Bpe, .ok ['a'], [0x61, 0xc3]) := by
    decide +kernel
  obtain ⟨tokenizer, hfile, hrun⟩ := Outcome.bind_eq_ok.mp hrun
  obtain ⟨hmodel, hrest⟩ := Prod.mk.inj (Outcome.ok.inj hrun)
  obtain ⟨hdecode, hbytes⟩ := Prod.mk.inj hrest
  refine ⟨tokenizer, hfile, hdecode, (decode_tail_iff hmodel hdecode).mpr ⟨['a', 'é'], ?_⟩⟩
  rw [hbytes]
  exact ⟨[0xa9], by decide +kernel⟩

/-- After an ill-formed byte the rest of the text is lost. -/
theorem decode_tail_lost : ¬∀ (tokenizer : Tokenizer) (ids : List TokenId) (removeSpecial : Bool)
    (text : Str), tokenizer.model = .Gpt2Bpe → (∀ id ∈ ids, id < tokenizer.tokens.length) →
      tokenizer.decode ids removeSpecial = .ok text →
        ∃ tail, tokenizer.shownBytes removeSpecial ids = Utf8.encode text ++ tail ∧
          Utf8.Unfinished tail ∧ tail.length ≤ 3 := by
  intro hclaim
  have hrun : (Tokenizer.fromGguf (byteLevelFile [['a'], ['ÿ']] none) >>= fun tokenizer =>
      (.ok (tokenizer.model, tokenizer.tokens.length, tokenizer.decode [1, 0, 0, 0] false,
        tokenizer.shownBytes false [1, 0, 0, 0]) : EngineResult _)) =
      .ok (.Gpt2Bpe, 2, .ok [], [0xff, 0x61, 0x61, 0x61]) := by
    decide +kernel
  obtain ⟨tokenizer, -, hrun⟩ := Outcome.bind_eq_ok.mp hrun
  obtain ⟨hmodel, hrest⟩ := Prod.mk.inj (Outcome.ok.inj hrun)
  obtain ⟨hlen, hrest⟩ := Prod.mk.inj hrest
  obtain ⟨hdecode, hbytes⟩ := Prod.mk.inj hrest
  obtain ⟨tail, htail, -, hshort⟩ := hclaim tokenizer [1, 0, 0, 0] false [] hmodel
    (by rw [hlen]; decide) hdecode
  rw [hbytes, Utf8.encode_nil, List.nil_append] at htail
  rw [← htail] at hshort
  exact absurd hshort (by decide)

-- ---------------------------------------------------------------------------
-- The stop token
-- ---------------------------------------------------------------------------

theorem decodeSpmFrom_snoc {removeSpecial : Bool} {e : TokenId}
    (he : tokenizer.visibleToken removeSpecial e = .ok none) (ids : List TokenId)
    (bytes : List UInt8) (text : Str) :
    tokenizer.decodeSpmFrom removeSpecial (ids ++ [e]) bytes text =
      tokenizer.decodeSpmFrom removeSpecial ids bytes text := by
  induction ids generalizing bytes text with
  | nil =>
    simp only [List.nil_append, decodeSpmFrom, he, Outcome.ok_bind]
  | cons id ids ih =>
    rw [List.cons_append, decodeSpmFrom, decodeSpmFrom]
    refine congrArg _ (funext fun visible => ?_)
    cases visible with
    | none => exact ih bytes text
    | some token =>
      dsimp only
      split
      · exact ih _ _
      · exact ih _ _

theorem bpeBytes_snoc {removeSpecial : Bool} {e : TokenId}
    (he : tokenizer.visibleToken removeSpecial e = .ok none) (ids : List TokenId) :
    tokenizer.bpeBytes removeSpecial (ids ++ [e]) = tokenizer.bpeBytes removeSpecial ids := by
  induction ids with
  | nil =>
    simp only [List.nil_append, bpeBytes, he, Outcome.ok_bind]
  | cons id ids ih =>
    rw [List.cons_append, bpeBytes, bpeBytes, ih]

theorem decode_snoc {e : TokenId} (hrange : e < tokenizer.tokens.length)
    (he : tokenizer.strips e = true) (ids : List TokenId) :
    tokenizer.decode (ids ++ [e]) true = tokenizer.decode ids true := by
  have hvisible := visibleToken_stripped hrange he
  cases hmodel : tokenizer.model with
  | LlamaSpm =>
    simp only [decode, hmodel]
    exact decodeSpmFrom_snoc hvisible ids [] []
  | Gpt2Bpe =>
    simp only [decode, hmodel, decodeBpe]
    rw [bpeBytes_snoc hvisible]

/-- A marker text is no byte token, and starts with a character of one byte. -/
theorem eogMarkerTexts_shown {text : Str} (h : text ∈ eogMarkerTexts) :
    parseByteToken text = none ∧ ∃ rest, text = '<' :: rest := by
  have hall : eogMarkerTexts.all (fun text =>
      (parseByteToken text).isNone && text.head? == some '<') = true := by
    decide +kernel
  obtain ⟨hbyte, hhead⟩ := (Bool.and_eq_true _ _).mp (List.all_eq_true.mp hall text h)
  refine ⟨Option.isNone_iff_eq_none.mp hbyte, ?_⟩
  cases text with
  | nil => cases hhead
  | cons ch rest =>
    obtain rfl := Option.some.inj (beq_iff_eq.mp hhead)
    exact ⟨rest, rfl⟩

/-- An end-of-generation id is one of the special ids, or a token with a marker text. -/
theorem eog_cases {file : Gguf.GgufFile} (hfile : Tokenizer.fromGguf file = .ok tokenizer)
    {e : TokenId} (he : e ∈ tokenizer.special.eog) :
    tokenizer.isSpecial e = true ∨
      ∃ token, tokenizer.tokens[e]? = some token ∧ token.text ∈ eogMarkerTexts := by
  have hindexed := (Tokenizer.fromGguf_wellFormed hfile).indexed
  obtain ⟨_, model, _, _, _, _, _, vocab, -, -, -, -, -, -, -, -, rfl⟩ := fromGguf_steps hfile
  have hmem := List.mem_append.mp (List.mem_toFinset.mp he)
  rcases hmem with hspecial | hmarker
  · refine Or.inl ?_
    rw [List.reduceOption_mem_iff] at hspecial
    unfold isSpecial
    simp only [Bool.or_eq_true, beq_iff_eq]
    simp only [List.mem_cons, List.not_mem_nil, or_false] at hspecial
    rcases hspecial with heos | heot | heom
    · exact Or.inl (Or.inl (Or.inl (Or.inl (Or.inl (Or.inr heos.symm)))))
    · exact Or.inl (Or.inl (Or.inl (Or.inl (Or.inr heot.symm))))
    · exact Or.inl (Or.inl (Or.inl (Or.inr heom.symm)))
  · obtain ⟨text, htext, hlookup⟩ := List.mem_filterMap.mp hmarker
    obtain ⟨token, htoken, rfl⟩ := hindexed.texts text e hlookup
    exact Or.inr ⟨token, htoken, htext⟩

theorem validateTokenId_eq_ok {name : String} {id : Option TokenId} {len : Nat}
    (h : validateTokenId name id len = .ok ()) {e : TokenId} (he : id = some e) : e < len := by
  subst he
  unfold validateTokenId at h
  dsimp only at h
  split at h
  · cases h
  · rename_i hrange
    exact Nat.lt_of_not_le hrange

theorem isSpecial_range {len : Nat} (h : validateSpecial tokenizer.special len = .ok ())
    {e : TokenId} (he : tokenizer.isSpecial e = true) : e < len := by
  obtain ⟨⟨⟩, hbos, h⟩ := Outcome.bind_eq_ok.mp h
  obtain ⟨⟨⟩, heos, h⟩ := Outcome.bind_eq_ok.mp h
  obtain ⟨⟨⟩, -, h⟩ := Outcome.bind_eq_ok.mp h
  obtain ⟨⟨⟩, heot, h⟩ := Outcome.bind_eq_ok.mp h
  obtain ⟨⟨⟩, heom, h⟩ := Outcome.bind_eq_ok.mp h
  obtain ⟨⟨⟩, hsep, h⟩ := Outcome.bind_eq_ok.mp h
  obtain ⟨⟨⟩, hpad, hmask⟩ := Outcome.bind_eq_ok.mp h
  unfold isSpecial at he
  simp only [Bool.or_eq_true, beq_iff_eq] at he
  rcases he with (((((he | he) | he) | he) | he) | he) | he
  · exact validateTokenId_eq_ok hbos he
  · exact validateTokenId_eq_ok heos he
  · exact validateTokenId_eq_ok heot he
  · exact validateTokenId_eq_ok heom he
  · exact validateTokenId_eq_ok hsep he
  · exact validateTokenId_eq_ok hpad he
  · exact validateTokenId_eq_ok hmask he

theorem eog_range {file : Gguf.GgufFile} (hfile : Tokenizer.fromGguf file = .ok tokenizer)
    {e : TokenId} (he : e ∈ tokenizer.special.eog) : e < tokenizer.tokens.length := by
  rcases eog_cases hfile he with hspecial | ⟨token, htoken, -⟩
  · obtain ⟨_, _, _, _, _, _, _, _, -, -, -, -, -, -, -, hvalid, rfl⟩ := fromGguf_steps hfile
    exact isSpecial_range hvalid hspecial
  · exact (List.getElem?_eq_some_iff.mp htoken).1

/-- The text of a marker that is not stripped shows. -/
theorem decode_marker {e : TokenId} {token : Token} (htoken : tokenizer.tokens[e]? = some token)
    (htext : token.text ∈ eogMarkerTexts) (he : tokenizer.strips e = false) :
    tokenizer.decode [e] true ≠ .ok [] := by
  obtain ⟨hbyte, rest, hrest⟩ := eogMarkerTexts_shown htext
  have hvisible : tokenizer.visibleToken true e = .ok (some token) := by
    unfold strips at he
    obtain ⟨hspecial, hmark⟩ := (Bool.or_eq_false_iff).mp he
    rw [htoken, Option.any_some] at hmark
    rw [visibleToken, hspecial, Bool.and_false, if_neg Bool.false_ne_true, htoken,
      Outcome.okOr_some, Outcome.ok_bind, hmark, Bool.and_false, if_neg Bool.false_ne_true]
  cases hmodel : tokenizer.model with
  | LlamaSpm =>
    simp only [decode, hmodel, decodeSpmFrom, hvisible, Outcome.ok_bind, hbyte]
    rw [hrest]
    simp
  | Gpt2Bpe =>
    intro h
    have hshown : tokenizer.shownBytes true [e] = 60 :: rest.filterMap bpeCharToByte := by
      have hbyte : bpeCharToByte '<' = some 60 := by decide +kernel
      rw [shownBytes, List.filter_cons_of_pos (by rw [he]; rfl), List.filter_nil,
        List.flatMap_singleton, tokenText, Option.bind_some, htoken, Option.map_some,
        Option.getD_some, hrest, List.filterMap_cons_some hbyte]
    have htail := decode_tail hmodel h
    rw [hshown] at htail
    -- the first byte is a character of its own
    have hread := Utf8.decodePrefix_encode_append ['<'] (rest.filterMap bpeCharToByte)
    have hencode : Utf8.encode ['<'] = [60] := by decide +kernel
    rw [hencode, List.singleton_append, ← htail] at hread
    cases hread

/-- **The stop token never shows** exactly when `decode` strips it: it is one of the
special ids, a control token, or a user-defined token of the shape of a chat marker. -/
theorem eog_hidden_iff {file : Gguf.GgufFile} {tokenizer : Tokenizer}
    (hfile : Tokenizer.fromGguf file = .ok tokenizer) {e : TokenId}
    (he : e ∈ tokenizer.special.eog) :
    ((∀ ids, tokenizer.decode (ids ++ [e]) true = tokenizer.decode ids true) ∧
      ∀ (δ Λ : Type) (pass : ForwardPass δ Λ) (promptTokens ids : List TokenId)
        (completion : Server.Completion),
        LoadedModel.completedGeneration ⟨tokenizer, pass⟩ promptTokens (ids ++ [e]) = .ok completion →
          tokenizer.decode ids true = .ok completion.text) ↔
      tokenizer.strips e = true := by
  constructor
  · rintro ⟨hdecode, -⟩
    by_contra hshown
    have hstrips := Bool.eq_false_iff.mpr hshown
    rcases eog_cases hfile he with hspecial | ⟨token, htoken, htext⟩
    · rw [strips, hspecial, Bool.true_or] at hstrips
      cases hstrips
    · refine decode_marker htoken htext hstrips ?_
      have hempty := hdecode []
      rwa [List.nil_append, decode_nil] at hempty
  · intro hstrips
    have hdecode := decode_snoc (eog_range hfile he) hstrips
    refine ⟨hdecode, ?_⟩
    intro δ Λ pass promptTokens ids completion h
    obtain ⟨text, htext, h⟩ := Outcome.bind_eq_ok.mp h
    obtain rfl := Outcome.ok.inj h
    rw [← hdecode ids]
    exact htext

/-- A control token with a marker text does not show. -/
theorem eog_hidden_control :
    ∃ tokenizer, Tokenizer.fromGguf
        (byteLevelFile [['a'], "<|im_end|>".toList] (some [.I32 1, .I32 3])) = .ok tokenizer ∧
      1 ∈ tokenizer.special.eog ∧
      ∀ ids, tokenizer.decode (ids ++ [1]) true = tokenizer.decode ids true := by
  have hrun : (Tokenizer.fromGguf
      (byteLevelFile [['a'], "<|im_end|>".toList] (some [.I32 1, .I32 3])) >>= fun tokenizer =>
        (.ok (decide (1 ∈ tokenizer.special.eog), tokenizer.strips 1) : EngineResult _)) =
      .ok (true, true) := by
    decide +kernel
  obtain ⟨tokenizer, hfile, hrun⟩ := Outcome.bind_eq_ok.mp hrun
  obtain ⟨heog, hstrips⟩ := Prod.mk.inj (Outcome.ok.inj hrun)
  have he := of_decide_eq_true heog
  exact ⟨tokenizer, hfile, he, ((eog_hidden_iff hfile he).mpr hstrips).1⟩

/-- A plain token with a marker text does. -/
theorem eog_hidden_shows : ¬∀ (file : Gguf.GgufFile) (tokenizer : Tokenizer) (e : TokenId)
    (ids : List TokenId), Tokenizer.fromGguf file = .ok tokenizer → e ∈ tokenizer.special.eog →
      tokenizer.decode (ids ++ [e]) true = tokenizer.decode ids true := by
  intro hclaim
  have hrun : (Tokenizer.fromGguf (byteLevelFile [['a'], "<|im_end|>".toList] none) >>=
      fun tokenizer =>
        (.ok (decide (1 ∈ tokenizer.special.eog), tokenizer.decode [0, 1] true,
          tokenizer.decode [0] true) : EngineResult _)) =
      .ok (true, .ok "a<|im_end|>".toList, .ok ['a']) := by
    decide +kernel
  obtain ⟨tokenizer, hfile, hrun⟩ := Outcome.bind_eq_ok.mp hrun
  obtain ⟨heog, hrest⟩ := Prod.mk.inj (Outcome.ok.inj hrun)
  obtain ⟨hboth, hone⟩ := Prod.mk.inj hrest
  have hsame := hclaim _ tokenizer 1 [0] hfile (of_decide_eq_true heog)
  rw [List.singleton_append, hboth, hone] at hsame
  exact absurd (Outcome.ok.inj hsame) (by decide +kernel)

end Tokenizer

end CamelidEnterprise

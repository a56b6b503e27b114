import CamelidEnterprise.Engine.RawControl
import CamelidEnterprise.Foundation.Lossy

/-!
# Camelid Enterprise — encoding, cut at markers

With special parsing a byte-level text is partitioned at its special tokens, and only the
pieces between them are merged. A marker is a special token that begins with `<`, and that
no other special token extends; where `<` is in no special token but in front (`OpensOnly`),
none reaches into a marker either.

* `encodes_of_encode` — what `encode_bpe_text` returns is read off the text, without its
  loop.
* `Encodes.cut` — a text with a marker in it is encoded as what stands before the marker,
  its id, and what comes after.
* `Encodes.not_mem` — a marker that a text does not spell has no id in it.
-/

namespace CamelidEnterprise

open Foundation Foundation.Text

namespace Tokenizer

variable {tokenizer : Tokenizer}

-- ---------------------------------------------------------------------------
-- Spelling in bytes
-- ---------------------------------------------------------------------------

/-- Text over `!` to `~` is its own spelling. -/
theorem byteSpelled_selfSpelled {text : Str} (h : ∀ ch ∈ text, SelfSpelled ch) :
    byteSpelled text = text := by
  induction text with
  | nil => rfl
  | cons ch chs ih =>
    obtain ⟨byte, hbyte, hencode⟩ := bpeCharToByte_selfSpelled (h ch List.mem_cons_self)
    have hchar := bpeByteToChar_of_bpeCharToByte hbyte
    have hcons : ch :: chs = [ch] ++ chs := rfl
    rw [hcons, byteSpelled_append, ih fun c hc => h c (List.mem_cons_of_mem _ hc)]
    unfold byteSpelled
    rw [hencode, List.map_singleton, hchar]

/-- So a text spells it only where it stands. -/
theorem infix_of_byteSpelled {marker text : Str} (hne : marker ≠ [])
    (hself : ∀ ch ∈ marker, SelfSpelled ch) (h : marker <:+: byteSpelled text) :
    marker <:+: text := by
  obtain ⟨before, after, hcut⟩ := h
  rw [← byteSpelled_selfSpelled hself] at hcut
  unfold byteSpelled at hcut
  obtain ⟨front, later, hbytes, hfront, -⟩ := List.map_eq_append_iff.mp hcut.symm
  obtain ⟨earlier, middle, rfl, -, hmiddle⟩ := List.map_eq_append_iff.mp hfront
  obtain rfl := List.map_injective_iff.mpr bpeByteToChar_injective hmiddle
  exact Utf8.infix_of_encode hne (fun ch hch => Nat.lt_succ_of_le (Nat.le_succ_of_le (hself ch hch).2))
    ⟨earlier, later, hbytes.symm⟩

-- ---------------------------------------------------------------------------
-- The partition
-- ---------------------------------------------------------------------------

/-- The ids of a text with special parsing: of the longest special token wherever one
begins, and of the symbols of the pieces between. -/
inductive Encodes (tokenizer : Tokenizer) : Str → List TokenId → Prop
  | nil : Encodes tokenizer [] []
  | special {token rest id later}
      (hlongest : tokenizer.longestControlToken true (token.text ++ rest) = some token)
      (hid : tokenizer.tokenToId.lookup token.text = some id)
      (hrest : Encodes tokenizer rest later) : Encodes tokenizer (token.text ++ rest) (id :: later)
  | piece {piece rest segments ids later}
      (hplain : ∀ front back, piece = front ++ back → back ≠ [] →
        tokenizer.longestControlToken true (back ++ rest) = none)
      (hsegments : segments.flatten = piece) (hids : tokenizer.encodeBpeSegments segments = .ok ids)
      (hrest : Encodes tokenizer rest later) : Encodes tokenizer (piece ++ rest) (ids ++ later)

/-- By induction on the passes of the encoding loop. -/
theorem encodes_of_encodeBpeFrom {cls : CharClass} {text before rest : Str} {fuel byteStart : Nat}
    {ids : List TokenId} (htext : text = before ++ rest) (hstart : byteStart = byteLen before)
    (h : tokenizer.encodeBpeFrom cls text true fuel byteStart = .ok ids) :
    tokenizer.Encodes rest ids := by
  induction fuel generalizing byteStart before rest ids with
  | zero => cases h
  | succ fuel ih =>
    subst hstart
    rw [encodeBpeFrom] at h
    split at h
    · split at h
      · -- a special token starts here
        rename_i id tokenLen hcontrol
        obtain ⟨later, hlater, h⟩ := Outcome.bind_eq_ok.mp h
        obtain rfl := Outcome.ok.inj h
        obtain ⟨⟨special, len⟩, hat, hcontrol⟩ := Option.bind_eq_some_iff.mp hcontrol
        obtain ⟨id', hid, hpair⟩ := Option.bind_eq_some_iff.mp hcontrol
        obtain ⟨rfl, rfl⟩ := Prod.mk.inj (Option.some.inj hpair)
        rw [htext, longestControlTokenAt_append] at hat
        obtain ⟨token, hlongest, hpair⟩ := Option.map_eq_some_iff.mp hat
        obtain ⟨rfl, rfl⟩ := Prod.mk.inj hpair
        obtain ⟨-, -, after, rfl⟩ := longestControlToken_spec hlongest
        have htext' : text = (before ++ token.text) ++ after := by
          rw [htext, List.append_assoc]
        exact .special hlongest hid (ih htext' (byteLen_append before token.text).symm hlater)
      · -- none does before `next`: the text up to there is one piece
        obtain ⟨next, hnext, h⟩ := Outcome.bind_eq_ok.mp h
        obtain ⟨piece, hslice, h⟩ := Outcome.bind_eq_ok.mp h
        obtain ⟨segments, hsegments, h⟩ := Outcome.bind_eq_ok.mp h
        obtain ⟨own, hown, h⟩ := Outcome.bind_eq_ok.mp h
        obtain ⟨later, hlater, h⟩ := Outcome.bind_eq_ok.mp h
        obtain rfl := Outcome.ok.inj h
        obtain ⟨piece', after, rfl, hend, hplain⟩ := nextControlTokenStart_plain htext hnext
        have hcut : slice text (byteLen before) (next.getD (byteLen text)) = some piece' :=
          slice_eq_some.mpr ⟨before, after, by rw [htext, List.append_assoc], rfl, hend.symm⟩
        obtain rfl := Option.some.inj ((Outcome.orPanic_eq_ok.mp hslice).symm.trans hcut)
        have htext' : text = (before ++ piece) ++ after := by
          rw [htext, List.append_assoc]
        have hstart' : next.getD (byteLen text) = byteLen (before ++ piece) := by
          rw [byteLen_append, hend]
        exact .piece hplain (bpePretokenizeWith_flatten hsegments) hown (ih htext' hstart' hlater)
    · rename_i hdone
      obtain rfl := Outcome.ok.inj h
      have hlen : byteLen text = byteLen before + byteLen rest := by
        rw [htext, byteLen_append]
      obtain rfl := byteLen_eq_zero.mp (show byteLen rest = 0 by omega)
      exact .nil

theorem encodes_of_encodeBody {cls : CharClass} (hmodel : tokenizer.model = .Gpt2Bpe) {text : Str}
    {ids : List TokenId} (h : tokenizer.encodeBody cls text true = .ok ids) :
    tokenizer.Encodes text ids := by
  simp only [encodeBody, hmodel] at h
  split at h
  · rename_i hempty
    obtain rfl := Outcome.ok.inj h
    rw [List.isEmpty_iff.mp hempty]
    exact .nil
  · exact encodes_of_encodeBpeFrom (List.nil_append text).symm byteLen_nil.symm h

-- ---------------------------------------------------------------------------
-- Markers
-- ---------------------------------------------------------------------------

/-- `<` is in no special token but in front. -/
def OpensOnly (tokenizer : Tokenizer) : Prop :=
  ∀ token ∈ tokenizer.tokens, isPartitionToken true token = true → '<' ∉ token.text.tail

/-- A special token that begins with `<` and is the longest with that beginning. -/
def Marker (tokenizer : Tokenizer) (marker : Str) : Prop :=
  marker.head? = some '<' ∧
    (∃ token ∈ tokenizer.tokens, isPartitionToken true token = true ∧ token.text = marker) ∧
    ∀ token ∈ tokenizer.tokens, isPartitionToken true token = true → marker <+: token.text →
      token.text = marker

instance : Decidable tokenizer.OpensOnly :=
  inferInstanceAs (Decidable (∀ token ∈ tokenizer.tokens, isPartitionToken true token = true →
    '<' ∉ token.text.tail))

instance (marker : Str) : Decidable (tokenizer.Marker marker) :=
  inferInstanceAs (Decidable (marker.head? = some '<' ∧
    (∃ token ∈ tokenizer.tokens, isPartitionToken true token = true ∧ token.text = marker) ∧
    ∀ token ∈ tokenizer.tokens, isPartitionToken true token = true → marker <+: token.text →
      token.text = marker))

theorem Marker.cons {marker : Str} (h : tokenizer.Marker marker) : ∃ cs, marker = '<' :: cs := by
  obtain ⟨hhead, -⟩ := h
  cases marker with
  | nil => cases hhead
  | cons c cs => exact ⟨cs, by rw [Option.some.inj hhead]⟩

/-- A marker is matched where it stands. -/
theorem Marker.longest {marker : Str} (h : tokenizer.Marker marker) (rest : Str) :
    ∃ found, tokenizer.longestControlToken true (marker ++ rest) = some found ∧
      found.text = marker := by
  obtain ⟨-, ⟨token, hmem, hkind, rfl⟩, hlongest⟩ := h
  have hcandidate : token ∈ tokenizer.tokens.filter fun t =>
      isPartitionToken true t && t.text.isPrefixOf (token.text ++ rest) := by
    refine List.mem_filter.mpr ⟨hmem, ?_⟩
    rw [hkind, Bool.true_and, List.isPrefixOf_iff_prefix]
    exact List.prefix_append _ _
  obtain ⟨found, hfound⟩ := maxByKey_isSome (fun t => byteLen t.text) hcandidate
  obtain ⟨hfoundMem, hmatch⟩ := List.mem_filter.mp (maxByKey_mem hfound)
  obtain ⟨hfoundKind, hfront⟩ := Bool.and_eq_true_iff.mp hmatch
  have hle := maxByKey_le hcandidate hfound
  refine ⟨found, hfound, ?_⟩
  -- of two beginnings of the text, the one with as many bytes extends the other
  rcases List.prefix_or_prefix_of_prefix (List.prefix_append token.text rest)
    (List.isPrefixOf_iff_prefix.mp hfront) with hext | ⟨more, hmore⟩
  · exact hlongest found hfoundMem hfoundKind hext
  · have hlen := congrArg byteLen hmore
    rw [byteLen_append] at hlen
    rw [byteLen_eq_zero.mp (show byteLen more = 0 by omega), List.append_nil] at hmore
    exact hmore

/-- In front of a marker a match does not depend on what comes from there on. -/
theorem OpensOnly.longest_before (h : tokenizer.OpensOnly) {text cs : Str} (hne : text ≠ []) :
    tokenizer.longestControlToken true (text ++ '<' :: cs) =
      tokenizer.longestControlToken true text := by
  unfold longestControlToken
  congr 1
  refine List.filter_congr fun token hmem => ?_
  rcases hkind : isPartitionToken true token with _ | _
  · rfl
  · rw [Bool.true_and, Bool.true_and, Bool.eq_iff_iff, List.isPrefixOf_iff_prefix,
      List.isPrefixOf_iff_prefix]
    refine ⟨?_, fun hfront => hfront.trans (List.prefix_append _ _)⟩
    rintro ⟨later, hcut⟩
    rcases List.append_eq_append_iff.mp hcut with ⟨d, hd, -⟩ | ⟨d, htoken, hd⟩
    · exact ⟨d, hd.symm⟩
    · -- what reaches beyond has the `<` inside
      obtain ⟨c, text, rfl⟩ := List.exists_cons_of_ne_nil hne
      cases d with
      | nil => exact ⟨[], by rw [List.append_nil, htoken, List.append_nil]⟩
      | cons x d =>
        obtain ⟨rfl, -⟩ := List.cons.inj hd
        refine absurd ?_ (h token hmem hkind)
        rw [htoken]
        exact List.mem_append_right _ List.mem_cons_self

/-- **A text cut at a marker.** -/
theorem Encodes.cut (hopens : tokenizer.OpensOnly) {marker : Str} (hmarker : tokenizer.Marker marker)
    {text before after : Str} {ids : List TokenId} (h : tokenizer.Encodes text ids)
    (htext : text = before ++ (marker ++ after)) :
    ∃ front id back, ids = front ++ id :: back ∧ tokenizer.tokenToId.lookup marker = some id ∧
      tokenizer.Encodes before front ∧ tokenizer.Encodes after back := by
  obtain ⟨cs, hcons⟩ := hmarker.cons
  have hlonger : marker ++ after = '<' :: (cs ++ after) := by rw [hcons, List.cons_append]
  induction h generalizing before with
  | nil =>
    rw [hlonger] at htext
    exact absurd (List.append_eq_nil_iff.mp htext.symm).2 (List.cons_ne_nil _ _)
  | @special token rest id later hlongest hid hrest ih =>
    rcases split_append htext with ⟨d, rfl, rfl⟩ | ⟨d, hd, htoken, hv⟩
    · -- the token ends before the marker begins
      obtain ⟨front, markerId, back, rfl, hmarkerId, hfront, hback⟩ := ih rfl
      refine ⟨id :: front, markerId, back, rfl, hmarkerId, .special ?_ hid hfront, hback⟩
      have hne : token.text ++ d ≠ [] := fun hnil =>
        (longestControlToken_spec hlongest).2.1 (List.append_eq_nil_iff.mp hnil).1
      rw [← hlongest, ← List.append_assoc, hlonger, hopens.longest_before hne]
    · cases before with
      | nil =>
        -- the token begins where the marker does, and is the marker
        rw [htext, List.nil_append] at hlongest
        obtain ⟨found, hfound, hsame⟩ := hmarker.longest after
        obtain rfl := Option.some.inj (hlongest.symm.trans hfound)
        rw [hsame, List.nil_append] at htext
        obtain rfl := List.append_cancel_left htext
        rw [hsame] at hid
        exact ⟨[], id, later, rfl, hid, .nil, hrest⟩
      | cons c before =>
        obtain ⟨hmem, hkind, -⟩ := longestControlToken_partition hlongest
        obtain ⟨x, d, rfl⟩ := List.exists_cons_of_ne_nil hd
        rw [hlonger] at hv
        obtain ⟨rfl, -⟩ := List.cons.inj hv
        refine absurd ?_ (hopens token hmem hkind)
        rw [htoken]
        exact List.mem_append_right _ List.mem_cons_self
  | @piece piece rest segments own later hplain hsegments hown hrest ih =>
    rcases split_append htext with ⟨d, rfl, rfl⟩ | ⟨d, hd, hpiece, hv⟩
    · obtain ⟨front, markerId, back, rfl, hmarkerId, hfront, hback⟩ := ih rfl
      refine ⟨own ++ front, markerId, back, by rw [List.append_assoc], hmarkerId,
        .piece (fun earlier tail hcut htail => ?_) hsegments hown hfront, hback⟩
      have hnone := hplain earlier tail hcut htail
      have hne : tail ++ d ≠ [] := fun hnil => htail (List.append_eq_nil_iff.mp hnil).1
      rwa [← List.append_assoc, hlonger, hopens.longest_before hne] at hnone
    · -- a piece stops where a marker begins
      have hnone := hplain before d hpiece hd
      obtain ⟨found, hfound, -⟩ := hmarker.longest after
      rw [← hv, hfound] at hnone
      cases hnone

-- ---------------------------------------------------------------------------
-- The ids of a text
-- ---------------------------------------------------------------------------

theorem symbolIds_mem {symbols : List Str} {ids : List TokenId}
    (h : tokenizer.symbolIds symbols = .ok ids) {id : TokenId} (hid : id ∈ ids) :
    ∃ symbol ∈ symbols, tokenizer.tokenToId.lookup symbol = some id := by
  induction symbols generalizing ids with
  | nil =>
    obtain rfl := Outcome.ok.inj h
    exact absurd hid List.not_mem_nil
  | cons symbol symbols ih =>
    obtain ⟨own, hown, h⟩ := Outcome.bind_eq_ok.mp h
    obtain ⟨later, hlater, h⟩ := Outcome.bind_eq_ok.mp h
    obtain rfl := Outcome.ok.inj h
    rcases List.mem_cons.mp hid with rfl | hid
    · exact ⟨symbol, List.mem_cons_self, Outcome.okOr_eq_ok.mp hown⟩
    · obtain ⟨other, hother, hlookup⟩ := ih hlater hid
      exact ⟨other, List.mem_cons_of_mem _ hother, hlookup⟩

/-- The ids of segments are of symbols that their bytes spell. -/
theorem encodeBpeSegments_mem {segments : List Str} {ids : List TokenId}
    (h : tokenizer.encodeBpeSegments segments = .ok ids) {id : TokenId} (hid : id ∈ ids) :
    ∃ symbol, symbol <:+: byteSpelled segments.flatten ∧
      tokenizer.tokenToId.lookup symbol = some id := by
  induction segments generalizing ids with
  | nil =>
    obtain rfl := Outcome.ok.inj h
    exact absurd hid List.not_mem_nil
  | cons segment segments ih =>
    obtain ⟨own, hown, h⟩ := Outcome.bind_eq_ok.mp h
    obtain ⟨later, hlater, h⟩ := Outcome.bind_eq_ok.mp h
    obtain rfl := Outcome.ok.inj h
    rw [List.flatten_cons, byteSpelled_append]
    rcases List.mem_append.mp hid with hid | hid
    · unfold encodeBpeSegment at hown
      split at hown
      · obtain rfl := Outcome.ok.inj hown
        exact absurd hid List.not_mem_nil
      · obtain ⟨symbols, hsymbols, hown⟩ := Outcome.bind_eq_ok.mp hown
        obtain ⟨symbol, hsymbol, hlookup⟩ := symbolIds_mem hown hid
        rw [byteSpelled_singletons] at hsymbols
        have hwithin := mergeSymbols_within hsymbols hsymbol
        exact ⟨symbol, hwithin.trans (List.prefix_append _ _).isInfix, hlookup⟩
    · obtain ⟨symbol, hsymbol, hlookup⟩ := ih hlater hid
      exact ⟨symbol, hsymbol.trans (List.suffix_append _ _).isInfix, hlookup⟩

/-- **A marker that is not spelled has no id.** -/
theorem Encodes.not_mem (hwf : tokenizer.WellFormed) {marker : Str} (hne : marker ≠ [])
    (hself : ∀ ch ∈ marker, SelfSpelled ch) {id : TokenId}
    (hid : tokenizer.tokenToId.lookup marker = some id) {text : Str} {ids : List TokenId}
    (h : tokenizer.Encodes text ids) (hfree : ¬marker <:+: text) : id ∉ ids := by
  -- an id has one text
  have hsame : ∀ {other : Str}, tokenizer.tokenToId.lookup other = some id → other = marker := by
    intro other hother
    obtain ⟨token, htoken, rfl⟩ := hwf.indexed.texts marker id hid
    obtain ⟨token', htoken', rfl⟩ := hwf.indexed.texts other id hother
    rw [Option.some.inj (htoken.symm.trans htoken')]
  induction h with
  | nil => exact List.not_mem_nil
  | @special token rest own later hlongest hown hrest ih =>
    intro hmem
    rcases List.mem_cons.mp hmem with rfl | hmem
    · rw [hsame hown] at hfree
      exact hfree (List.prefix_append _ _).isInfix
    · exact ih (fun hrest => hfree (hrest.trans (List.suffix_append _ _).isInfix)) hmem
  | @piece piece rest segments own later hplain hsegments hown hrest ih =>
    intro hmem
    rcases List.mem_append.mp hmem with hmem | hmem
    · obtain ⟨symbol, hsymbol, hlookup⟩ := encodeBpeSegments_mem hown hmem
      rw [hsame hlookup, hsegments] at hsymbol
      exact hfree ((infix_of_byteSpelled hne hself hsymbol).trans (List.prefix_append _ _).isInfix)
    · exact ih (fun hrest => hfree (hrest.trans (List.suffix_append _ _).isInfix)) hmem

/-- A text over `!` to `~` comes back from its ids. -/
theorem Encodes.decode (hwf : tokenizer.WellFormed) (hmodel : tokenizer.model = .Gpt2Bpe)
    {text : Str} {ids : List TokenId} (h : tokenizer.Encodes text ids)
    (hself : ∀ ch ∈ text, SelfSpelled ch) : tokenizer.decode ids false = .ok text := by
  have hbytes : tokenizer.bpeBytes false ids = .ok (Utf8.encode text) := by
    induction h with
    | nil => rfl
    | @special token rest own later hlongest hown hrest ih =>
      obtain ⟨visible, hcons⟩ := bpeBytes_cons hwf hown later
      rw [hcons, tokenBytes_selfSpelled visible fun ch hch => hself ch (List.mem_append_left _ hch),
        Outcome.ok_bind, ih fun ch hch => hself ch (List.mem_append_right _ hch), Outcome.ok_bind,
        Utf8.encode_append]
    | @piece piece rest segments own later hplain hsegments hown hrest ih =>
      rw [Utf8.encode_append, ← hsegments]
      refine bpeBytes_concat (encodeBpeSegments_bytes hwf hown) (ih fun ch hch => hself ch ?_)
      exact List.mem_append_right _ hch
  simp only [Tokenizer.decode, hmodel, decodeBpe]
  rw [hbytes, Outcome.ok_bind, readableText_eq, Utf8.decodePrefix_encode]

end Tokenizer

end CamelidEnterprise

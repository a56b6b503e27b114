import CamelidEnterprise.Engine.Decode

/-!
# Camelid Enterprise — byte-level BPE, there and back

What `decode` makes of the ids `encode` gave, for the GPT-2/BPE family.

Between special tokens the two are inverse: pre-tokenizing and merging only
regroup the characters that spell the text's bytes, and every merged symbol is
looked up under its own text. A special token is different. `encode` matches its
text as raw text, while `decode` reads the same text in the byte alphabet, where
only `!` to `~` stand for themselves. `matchedSpecials` is what the partition of a
text matches, and `decode_encode_iff` says that the round trip holds exactly when
all of it is spelled in those characters.
-/

namespace CamelidEnterprise

open Foundation Foundation.Text

/-! ## The byte alphabet -/

/-- A character that stands for itself in the byte alphabet: `!` to `~`. -/
def SelfSpelled (ch : Char) : Prop := 33 ≤ ch.toNat ∧ ch.toNat ≤ 126

instance : DecidablePred SelfSpelled := fun ch =>
  inferInstanceAs (Decidable (33 ≤ ch.toNat ∧ ch.toNat ≤ 126))

/-- How many hidden bytes come before `n`. -/
def hiddenBelow (n : Nat) : Nat := ((List.range n).filter fun m => !visibleByte m).length

theorem hiddenBelow_lt {m n : Nat} (hmn : m < n) (hm : visibleByte m = false) :
    hiddenBelow m < hiddenBelow n := by
  obtain ⟨k, rfl⟩ := Nat.exists_eq_add_of_lt hmn
  have hsucc : hiddenBelow (m + 1) = hiddenBelow m + 1 := by
    rw [hiddenBelow, List.range_succ, List.filter_append, List.length_append, hiddenBelow]
    simp [hm]
  -- the bytes after `m` can only add to the count
  have hmono : hiddenBelow (m + 1) ≤ hiddenBelow (m + k + 1) :=
    ((List.range_sublist.mpr (by omega)).filter _).length_le
  omega

theorem hiddenBelow_le (n : Nat) : hiddenBelow n ≤ n := by
  have hle := List.length_filter_le (fun m => !visibleByte m) (List.range n)
  rwa [List.length_range] at hle

theorem bpeByteToChar_toNat (byte : UInt8) :
    (bpeByteToChar byte).toNat =
      if visibleByte byte.toNat then byte.toNat else 256 + hiddenBelow byte.toNat := by
  have hbyte := byte.toNat_lt
  have hhidden := hiddenBelow_le byte.toNat
  have hvalid : ∀ n : Nat, n < 512 → (Char.ofNat n).toNat = n := by
    intro n hn
    have hn' : n.isValidChar := Or.inl (by omega)
    rw [Char.ofNat, dif_pos hn']
    rfl
  unfold bpeByteToChar
  split
  · exact hvalid _ (by omega)
  · exact hvalid _ (by unfold hiddenBelow at hhidden; omega)

theorem bpeByteToChar_injective : Function.Injective bpeByteToChar := by
  intro a b hab
  have hcode := congrArg Char.toNat hab
  rw [bpeByteToChar_toNat, bpeByteToChar_toNat] at hcode
  have ha := a.toNat_lt
  have hb := b.toNat_lt
  refine UInt8.toNat_inj.mp ?_
  split at hcode <;> rename_i hva <;> split at hcode <;> rename_i hvb
  · exact hcode
  · omega
  · omega
  · -- two hidden bytes: the later one counts the earlier one
    rcases Nat.lt_trichotomy a.toNat b.toNat with hlt | heq | hgt
    · have := hiddenBelow_lt hlt (Bool.eq_false_iff.mpr hva)
      omega
    · exact heq
    · have := hiddenBelow_lt hgt (Bool.eq_false_iff.mpr hvb)
      omega

theorem mem_allBytes (byte : UInt8) : byte ∈ allBytes :=
  List.mem_map.mpr ⟨byte.toNat, List.mem_range.mpr byte.toNat_lt, UInt8.ofNat_toNat⟩

theorem bpeByteToChar_of_bpeCharToByte {ch : Char} {byte : UInt8}
    (h : bpeCharToByte ch = some byte) : bpeByteToChar byte = ch := by
  have hfound := List.find?_some h
  exact beq_iff_eq.mp hfound

theorem bpeCharToByte_bpeByteToChar (byte : UInt8) :
    bpeCharToByte (bpeByteToChar byte) = some byte := by
  cases hfind : bpeCharToByte (bpeByteToChar byte) with
  | none =>
    have hnone := List.find?_eq_none.mp hfind byte (mem_allBytes byte)
    exact absurd (beq_self_eq_true _) hnone
  | some found =>
    rw [bpeByteToChar_injective (bpeByteToChar_of_bpeCharToByte hfind)]

/-- A byte is spelled as itself, or as a character of two or more bytes. -/
theorem bpeByteToChar_cases (byte : UInt8) :
    (SelfSpelled (bpeByteToChar byte) ∧ Utf8.encode [bpeByteToChar byte] = [byte]) ∨
      2 ≤ (bpeByteToChar byte).utf8Size := by
  have hall : ∀ n : Fin 256,
      (SelfSpelled (bpeByteToChar (UInt8.ofNat n.val)) ∧
        Utf8.encode [bpeByteToChar (UInt8.ofNat n.val)] = [UInt8.ofNat n.val]) ∨
      2 ≤ (bpeByteToChar (UInt8.ofNat n.val)).utf8Size := by
    decide +kernel
  have hbyte := hall ⟨byte.toNat, byte.toNat_lt⟩
  rwa [UInt8.ofNat_toNat] at hbyte

/-- The self-spelled characters are the bytes 33 to 126. -/
theorem bpeCharToByte_selfSpelled {ch : Char} (h : SelfSpelled ch) :
    ∃ byte, bpeCharToByte ch = some byte ∧ Utf8.encode [ch] = [byte] := by
  have hall : ∀ n : Fin 127, 33 ≤ n.val →
      bpeByteToChar (UInt8.ofNat n.val) = Char.ofNat n.val ∧
        Utf8.encode [Char.ofNat n.val] = [UInt8.ofNat n.val] := by
    decide +kernel
  have hch := hall ⟨ch.toNat, Nat.lt_succ_of_le h.2⟩ h.1
  rw [Char.ofNat_toNat] at hch
  refine ⟨UInt8.ofNat ch.toNat, ?_, hch.2⟩
  have hback := bpeCharToByte_bpeByteToChar (UInt8.ofNat ch.toNat)
  rwa [hch.1] at hback

namespace Tokenizer

theorem tokenBytes_map (removeSpecial : Bool) (token : Token) (bytes : List UInt8) :
    tokenBytes removeSpecial token (bytes.map bpeByteToChar) = .ok bytes := by
  induction bytes with
  | nil => rfl
  | cons byte bytes ih =>
    rw [List.map_cons, tokenBytes, bpeCharToByte_bpeByteToChar]
    dsimp only
    rw [ih, Outcome.ok_bind]

/-- A text over `!` to `~` decodes to its own bytes. -/
theorem tokenBytes_selfSpelled {text : Str} (token : Token) (h : ∀ ch ∈ text, SelfSpelled ch) :
    tokenBytes false token text = .ok (Utf8.encode text) := by
  induction text with
  | nil => rfl
  | cons ch chs ih =>
    obtain ⟨byte, hbyte, hencode⟩ := bpeCharToByte_selfSpelled (h ch List.mem_cons_self)
    have hrest := ih fun c hc => h c (List.mem_cons_of_mem ch hc)
    have hcons : Utf8.encode (ch :: chs) = byte :: Utf8.encode chs := by
      rw [show ch :: chs = [ch] ++ chs from rfl, Utf8.encode_append, hencode, List.singleton_append]
    rw [tokenBytes, hbyte]
    dsimp only
    rw [hrest, Outcome.ok_bind, hcons]

/-- A token text never decodes to more bytes than it has, and to as many only
when it is spelled in `!` to `~`. -/
theorem tokenBytes_length {text : Str} {token : Token} {bytes : List UInt8}
    (h : tokenBytes false token text = .ok bytes) :
    bytes.length ≤ byteLen text ∧
      (bytes.length = byteLen text → ∀ ch ∈ text, SelfSpelled ch) := by
  induction text generalizing bytes with
  | nil =>
    obtain rfl := Outcome.ok.inj h
    exact ⟨Nat.le_refl _, fun _ ch hch => absurd hch List.not_mem_nil⟩
  | cons ch chs ih =>
    rw [tokenBytes] at h
    split at h
    · rename_i byte hbyte
      obtain ⟨rest, hrest, h⟩ := Outcome.bind_eq_ok.mp h
      obtain rfl := Outcome.ok.inj h
      obtain ⟨hle, heq⟩ := ih hrest
      have hpos := ch.utf8Size_pos
      rw [List.length_cons, byteLen_cons]
      rcases bpeByteToChar_cases byte with ⟨hself, -⟩ | hwide
      · rw [bpeByteToChar_of_bpeCharToByte hbyte] at hself
        refine ⟨by omega, ?_⟩
        intro hlen c hc
        rcases List.mem_cons.mp hc with rfl | hc
        · exact hself
        · exact heq (by omega) c hc
      · -- two bytes of text went into one byte of output
        rw [bpeByteToChar_of_bpeCharToByte hbyte] at hwide
        refine ⟨by omega, ?_⟩
        intro hlen
        omega
    · rw [Bool.not_false, Bool.true_or, if_pos rfl] at h
      cases h

/-! ## Merging only regroups -/

theorem mergePair_flatten (left right : Str) (symbols : List Str) :
    (mergePair left right symbols).flatten = symbols.flatten := by
  induction symbols using mergePair.induct left right with
  | case1 a b rest hpair ih =>
    rw [mergePair, if_pos hpair, List.flatten_cons, ih, List.flatten_cons, List.flatten_cons,
      List.append_assoc]
  | case2 a b rest hpair ih =>
    rw [mergePair, if_neg hpair, List.flatten_cons, ih]
    rfl
  | case3 symbols hshort =>
    rw [mergePair]
    exact hshort

theorem mergeSymbolsFuel_flatten {registry : BpeRegistry} {fuel : Nat} {symbols merged : List Str}
    (h : mergeSymbolsFuel registry fuel symbols = .ok merged) :
    merged.flatten = symbols.flatten := by
  induction fuel generalizing symbols with
  | zero => cases h
  | succ fuel ih =>
    rw [mergeSymbolsFuel] at h
    split at h
    · split at h
      · obtain rfl := Outcome.ok.inj h
        rfl
      · obtain ⟨left, -, h⟩ := Outcome.bind_eq_ok.mp h
        obtain ⟨right, -, h⟩ := Outcome.bind_eq_ok.mp h
        rw [ih h, mergePair_flatten]
    · obtain rfl := Outcome.ok.inj h
      rfl

/-! ## What the ids of a text decode to -/

variable {tokenizer : Tokenizer}

theorem visibleToken_indexed (hwf : tokenizer.WellFormed) {text : Str} {id : TokenId}
    (h : tokenizer.tokenToId.lookup text = some id) :
    ∃ token, tokenizer.visibleToken false id = .ok (some token) ∧ token.text = text := by
  obtain ⟨token, htoken, htext⟩ := hwf.indexed.texts text id h
  refine ⟨token, ?_, htext⟩
  rw [visibleToken, Bool.false_and, if_neg Bool.false_ne_true, htoken, Outcome.okOr_some,
    Outcome.ok_bind, Bool.false_and, if_neg Bool.false_ne_true]

/-- The bytes one looked-up id contributes are read off the text it was looked up by. -/
theorem bpeBytes_cons (hwf : tokenizer.WellFormed) {text : Str} {id : TokenId}
    (h : tokenizer.tokenToId.lookup text = some id) (ids : List TokenId) :
    ∃ token, tokenizer.bpeBytes false (id :: ids) =
      (tokenBytes false token text >>= fun bytes =>
        tokenizer.bpeBytes false ids >>= fun later => .ok (bytes ++ later)) := by
  obtain ⟨token, hvisible, htext⟩ := visibleToken_indexed hwf h
  refine ⟨token, ?_⟩
  rw [bpeBytes, hvisible, Outcome.ok_bind]
  dsimp only
  rw [htext]

theorem bpeBytes_concat {ids more : List TokenId} {front later : List UInt8}
    (hfront : tokenizer.bpeBytes false ids = .ok front)
    (hlater : tokenizer.bpeBytes false more = .ok later) :
    tokenizer.bpeBytes false (ids ++ more) = .ok (front ++ later) := by
  induction ids generalizing front with
  | nil =>
    obtain rfl := Outcome.ok.inj hfront
    exact hlater
  | cons id ids ih =>
    rw [bpeBytes] at hfront
    obtain ⟨visible, hvisible, hfront⟩ := Outcome.bind_eq_ok.mp hfront
    rw [List.cons_append, bpeBytes, hvisible, Outcome.ok_bind]
    cases visible with
    | none => exact ih hfront
    | some token =>
      dsimp only at hfront ⊢
      obtain ⟨own, hown, hfront⟩ := Outcome.bind_eq_ok.mp hfront
      obtain ⟨rest, hrest, hfront⟩ := Outcome.bind_eq_ok.mp hfront
      obtain rfl := Outcome.ok.inj hfront
      rw [hown, Outcome.ok_bind, ih hrest, Outcome.ok_bind, List.append_assoc]

/-- Ids of symbols that together spell `bytes` decode to `bytes`. -/
theorem symbolIds_bytes (hwf : tokenizer.WellFormed) {symbols : List Str} {ids : List TokenId}
    {bytes : List UInt8} (hspell : symbols.flatten = bytes.map bpeByteToChar)
    (h : tokenizer.symbolIds symbols = .ok ids) :
    tokenizer.bpeBytes false ids = .ok bytes := by
  induction symbols generalizing ids bytes with
  | nil =>
    obtain rfl := Outcome.ok.inj h
    rw [List.map_eq_nil_iff.mp hspell.symm]
    rfl
  | cons symbol symbols ih =>
    obtain ⟨id, hid, h⟩ := Outcome.bind_eq_ok.mp h
    obtain ⟨rest, hrest, h⟩ := Outcome.bind_eq_ok.mp h
    obtain rfl := Outcome.ok.inj h
    -- the symbol spells a front part of the bytes
    obtain ⟨own, later, rfl, hown, hlater⟩ := List.map_eq_append_iff.mp hspell.symm
    obtain ⟨token, hbytes⟩ := bpeBytes_cons hwf (Outcome.okOr_eq_ok.mp hid) rest
    rw [hbytes, ← hown, tokenBytes_map, Outcome.ok_bind, ih hlater.symm hrest, Outcome.ok_bind]

theorem encodeBpeSegment_bytes (hwf : tokenizer.WellFormed) {segment : Str} {ids : List TokenId}
    (h : tokenizer.encodeBpeSegment segment = .ok ids) :
    tokenizer.bpeBytes false ids = .ok (Utf8.encode segment) := by
  unfold encodeBpeSegment at h
  split at h
  · rename_i hempty
    obtain rfl := Outcome.ok.inj h
    rw [List.isEmpty_iff.mp hempty]
    rfl
  · obtain ⟨symbols, hsymbols, hids⟩ := Outcome.bind_eq_ok.mp h
    refine symbolIds_bytes hwf ?_ hids
    rw [mergeSymbolsFuel_flatten hsymbols]
    -- one symbol a byte
    generalize Utf8.encode segment = bytes
    induction bytes with
    | nil => rfl
    | cons byte bytes ih => rw [List.map_cons, List.flatten_cons, ih, List.map_cons]; rfl

theorem encodeBpeSegments_bytes (hwf : tokenizer.WellFormed) {segments : List Str}
    {ids : List TokenId} (h : tokenizer.encodeBpeSegments segments = .ok ids) :
    tokenizer.bpeBytes false ids = .ok (Utf8.encode segments.flatten) := by
  induction segments generalizing ids with
  | nil =>
    obtain rfl := Outcome.ok.inj h
    rfl
  | cons segment segments ih =>
    obtain ⟨front, hfront, h⟩ := Outcome.bind_eq_ok.mp h
    obtain ⟨later, hlater, h⟩ := Outcome.bind_eq_ok.mp h
    obtain rfl := Outcome.ok.inj h
    rw [List.flatten_cons, Utf8.encode_append]
    exact bpeBytes_concat (encodeBpeSegment_bytes hwf hfront) (ih hlater)

/-! ## The partition of a text -/

/-- Walk a text from its front; at each place that is not inside a match, the
longest special token there is the next match. `skip` characters are still inside
the last one. -/
def scanSpecials (tokenizer : Tokenizer) (includeControl : Bool) : Str → Nat → List Str
  | [], _ => []
  | _ :: chs, skip + 1 => scanSpecials tokenizer includeControl chs skip
  | ch :: chs, 0 =>
    match tokenizer.longestControlToken includeControl (ch :: chs) with
    | some token =>
      token.text :: scanSpecials tokenizer includeControl chs (token.text.length - 1)
    | none => scanSpecials tokenizer includeControl chs 0

/-- The texts of the special tokens that a text is partitioned at, in order. -/
def matchedSpecials (tokenizer : Tokenizer) (includeControl : Bool) (text : Str) : List Str :=
  tokenizer.scanSpecials includeControl text 0

theorem scanSpecials_append (includeControl : Bool) (front rest : Str) :
    tokenizer.scanSpecials includeControl (front ++ rest) front.length =
      tokenizer.matchedSpecials includeControl rest := by
  induction front with
  | nil => rfl
  | cons ch chs ih =>
    rw [List.cons_append, List.length_cons, scanSpecials]
    exact ih

theorem maxByKey_mem {α : Type} {key : α → Nat} {as : List α} {a : α}
    (h : maxByKey key as = some a) : a ∈ as := by
  induction as generalizing a with
  | nil => cases h
  | cons head tail ih =>
    rw [maxByKey] at h
    split at h
    · obtain rfl := Option.some.inj h
      exact List.mem_cons_self
    · rename_i best hbest
      split at h
      · obtain rfl := Option.some.inj h
        exact List.mem_cons_self
      · obtain rfl := Option.some.inj h
        exact List.mem_cons_of_mem head (ih hbest)

/-- A matched token is one of the vocabulary's, is not empty, and stands at the
front of the text it was matched in. -/
theorem longestControlToken_partition {includeControl : Bool} {rest : Str} {token : Token}
    (h : tokenizer.longestControlToken includeControl rest = some token) :
    token ∈ tokenizer.tokens ∧ isPartitionToken includeControl token = true ∧
      token.text <+: rest := by
  obtain ⟨htoken, hmatch⟩ := List.mem_filter.mp (maxByKey_mem h)
  obtain ⟨hkind, hfront⟩ := Bool.and_eq_true_iff.mp hmatch
  exact ⟨htoken, hkind, List.isPrefixOf_iff_prefix.mp hfront⟩

theorem longestControlToken_spec {includeControl : Bool} {rest : Str} {token : Token}
    (h : tokenizer.longestControlToken includeControl rest = some token) :
    token ∈ tokenizer.tokens ∧ token.text ≠ [] ∧ token.text <+: rest := by
  obtain ⟨htoken, hkind, hfront⟩ := longestControlToken_partition h
  refine ⟨htoken, ?_, hfront⟩
  obtain ⟨-, hne⟩ := Bool.and_eq_true_iff.mp hkind
  intro hempty
  rw [hempty] at hne
  exact absurd hne (by decide)

theorem longestControlTokenAt_append (includeControl : Bool) (before rest : Str) :
    tokenizer.longestControlTokenAt (before ++ rest) (byteLen before) includeControl =
      (tokenizer.longestControlToken includeControl rest).map
        fun token => (token.text, byteLen token.text) := by
  unfold longestControlTokenAt
  rw [sliceFrom_append]
  show Option.bind (tokenizer.longestControlToken includeControl rest) _ = _
  cases tokenizer.longestControlToken includeControl rest with
  | none => rfl
  | some token => rfl

/-- A match at the front of what is left is the head of its partition. -/
theorem matchedSpecials_of_match {includeControl : Bool} {rest : Str} {token : Token}
    (h : tokenizer.longestControlToken includeControl rest = some token) :
    ∃ later, rest = token.text ++ later ∧
      tokenizer.matchedSpecials includeControl rest =
        token.text :: tokenizer.matchedSpecials includeControl later := by
  obtain ⟨-, hne, later, rfl⟩ := longestControlToken_spec h
  refine ⟨later, rfl, ?_⟩
  obtain ⟨ch, chs, htext⟩ := List.exists_cons_of_ne_nil hne
  rw [htext, List.cons_append] at h
  rw [matchedSpecials, htext, List.cons_append, scanSpecials, h]
  dsimp only
  rw [htext, List.length_cons, Nat.add_sub_cancel, scanSpecials_append]

/-- The search for the next match passes over places without one. -/
theorem nextControlTokenStart_plain {includeControl : Bool} {text before rest : Str}
    (htext : text = before ++ rest) {next : Option Nat}
    (h : tokenizer.nextControlTokenStart text (byteLen before) includeControl = .ok next) :
    ∃ piece after, rest = piece ++ after ∧
      next.getD (byteLen text) = byteLen before + byteLen piece ∧
      ∀ front back, piece = front ++ back → back ≠ [] →
        tokenizer.longestControlToken includeControl (back ++ after) = none := by
  unfold nextControlTokenStart at h
  rw [htext, sliceFrom_append] at h
  obtain rfl := Outcome.ok.inj h
  clear h
  induction rest generalizing before with
  | nil =>
    refine ⟨[], [], rfl, by simp [charIndices, htext], fun front back hnil hback => ?_⟩
    exact absurd (List.append_eq_nil_iff.mp hnil.symm).2 hback
  | cons ch chs ih =>
    rw [charIndices, List.find?_cons, longestControlTokenAt_append]
    cases hfound : tokenizer.longestControlToken includeControl (ch :: chs) with
    | some token =>
      refine ⟨[], ch :: chs, rfl, by simp, fun front back hnil hback => ?_⟩
      exact absurd (List.append_eq_nil_iff.mp hnil.symm).2 hback
    | none =>
      have hbefore : before ++ ch :: chs = (before ++ [ch]) ++ chs := by
        rw [List.append_assoc, List.singleton_append]
      have hlen : byteLen before + ch.utf8Size = byteLen (before ++ [ch]) := by simp
      obtain ⟨piece, after, hrest, hnext, hplain⟩ := ih (htext.trans hbefore)
      refine ⟨ch :: piece, after, by rw [hrest, List.cons_append], ?_, ?_⟩
      · rw [hbefore, hlen]
        show Option.getD (List.find? _ _) _ = _
        rw [hnext, byteLen_cons, ← hlen, Nat.add_assoc]
      · intro front back hcut hback
        cases front with
        | nil =>
          obtain rfl : ch :: piece = back := hcut
          rw [List.cons_append, ← hrest]
          exact hfound
        | cons first front => exact hplain front back (List.cons.inj hcut).2 hback

/-- Places without a match leave the partition as it is. -/
theorem matchedSpecials_plain {includeControl : Bool} {piece after : Str}
    (h : ∀ front back, piece = front ++ back → back ≠ [] →
      tokenizer.longestControlToken includeControl (back ++ after) = none) :
    tokenizer.matchedSpecials includeControl (piece ++ after) =
      tokenizer.matchedSpecials includeControl after := by
  induction piece with
  | nil => rfl
  | cons ch piece ih =>
    have hnone := h [] (ch :: piece) rfl (List.cons_ne_nil ch piece)
    rw [matchedSpecials, List.cons_append, scanSpecials, ← List.cons_append, hnone]
    refine ih fun front back hcut hback => h (ch :: front) back ?_ hback
    rw [hcut, List.cons_append]

/-- The next match, if there is one, is where the partition goes on. -/
theorem nextControlTokenStart_spec {includeControl : Bool} {text before rest : Str}
    (htext : text = before ++ rest) {next : Option Nat}
    (h : tokenizer.nextControlTokenStart text (byteLen before) includeControl = .ok next) :
    ∃ piece after, rest = piece ++ after ∧
      next.getD (byteLen text) = byteLen before + byteLen piece ∧
      tokenizer.matchedSpecials includeControl rest =
        tokenizer.matchedSpecials includeControl after := by
  obtain ⟨piece, after, rfl, hnext, hplain⟩ := nextControlTokenStart_plain htext h
  exact ⟨piece, after, rfl, hnext, matchedSpecials_plain hplain⟩

/-! ## The round trip -/

/-- Every special token the partition of `text` matches is spelled in `!` to `~`. -/
def SpecialsSelfSpelled (tokenizer : Tokenizer) (includeControl : Bool) (text : Str) : Prop :=
  ∀ special ∈ tokenizer.matchedSpecials includeControl text, ∀ ch ∈ special, SelfSpelled ch

/-- What the ids of a text decode to, before the bytes are read as text: its own
bytes when its special tokens allow, and else nothing or fewer bytes than it has. -/
structure DecodesTo (tokenizer : Tokenizer) (includeControl : Bool) (text : Str)
    (ids : List TokenId) : Prop where
  faithful : tokenizer.SpecialsSelfSpelled includeControl text →
    tokenizer.bpeBytes false ids = .ok (Utf8.encode text)
  length_le : ∀ bytes, tokenizer.bpeBytes false ids = .ok bytes → bytes.length ≤ byteLen text
  length_lt : ∀ bytes, tokenizer.bpeBytes false ids = .ok bytes →
    bytes.length = byteLen text → tokenizer.SpecialsSelfSpelled includeControl text

theorem DecodesTo.nil (includeControl : Bool) : DecodesTo tokenizer includeControl [] [] where
  faithful _ := rfl
  length_le bytes h := by
    obtain rfl := Outcome.ok.inj h
    exact Nat.le_refl _
  length_lt _ _ _ special hspecial := absurd hspecial List.not_mem_nil

/-- A piece between special tokens, in front of what is known to decode. -/
theorem DecodesTo.piece {includeControl : Bool} {piece after : Str} {ids later : List TokenId}
    (hpiece : tokenizer.bpeBytes false ids = .ok (Utf8.encode piece))
    (hscan : tokenizer.matchedSpecials includeControl (piece ++ after) =
      tokenizer.matchedSpecials includeControl after)
    (hafter : DecodesTo tokenizer includeControl after later) :
    DecodesTo tokenizer includeControl (piece ++ after) (ids ++ later) := by
  have hsame : tokenizer.SpecialsSelfSpelled includeControl (piece ++ after) ↔
      tokenizer.SpecialsSelfSpelled includeControl after := by
    unfold SpecialsSelfSpelled
    rw [hscan]
  -- the bytes of the whole are the piece's and the rest's
  have hsplit : ∀ bytes, tokenizer.bpeBytes false (ids ++ later) = .ok bytes →
      ∃ rest, tokenizer.bpeBytes false later = .ok rest ∧
        bytes.length = byteLen piece + rest.length := by
    intro bytes hbytes
    obtain ⟨front, rest, hfront, hrest, rfl⟩ := bpeBytes_append hbytes
    obtain rfl := Outcome.ok.inj (hpiece.symm.trans hfront)
    exact ⟨rest, hrest, by rw [List.length_append, length_encode]⟩
  refine ⟨?_, ?_, ?_⟩
  · intro hself
    rw [Utf8.encode_append]
    exact bpeBytes_concat hpiece (hafter.faithful (hsame.mp hself))
  · intro bytes hbytes
    obtain ⟨rest, hrest, hlen⟩ := hsplit bytes hbytes
    have hle := hafter.length_le rest hrest
    rw [byteLen_append]
    omega
  · intro bytes hbytes heq
    obtain ⟨rest, hrest, hlen⟩ := hsplit bytes hbytes
    rw [byteLen_append] at heq
    exact hsame.mpr (hafter.length_lt rest hrest (by omega))

/-- A special token, in front of what is known to decode. -/
theorem DecodesTo.special (hwf : tokenizer.WellFormed) {includeControl : Bool}
    {special after : Str} {id : TokenId} {later : List TokenId}
    (hid : tokenizer.tokenToId.lookup special = some id)
    (hscan : tokenizer.matchedSpecials includeControl (special ++ after) =
      special :: tokenizer.matchedSpecials includeControl after)
    (hafter : DecodesTo tokenizer includeControl after later) :
    DecodesTo tokenizer includeControl (special ++ after) (id :: later) := by
  have hboth : tokenizer.SpecialsSelfSpelled includeControl (special ++ after) ↔
      (∀ ch ∈ special, SelfSpelled ch) ∧
        tokenizer.SpecialsSelfSpelled includeControl after := by
    unfold SpecialsSelfSpelled
    rw [hscan]
    exact List.forall_mem_cons
  obtain ⟨token, hcons⟩ := bpeBytes_cons hwf hid later
  have hsplit : ∀ bytes, tokenizer.bpeBytes false (id :: later) = .ok bytes →
      ∃ own rest, tokenBytes false token special = .ok own ∧
        tokenizer.bpeBytes false later = .ok rest ∧ bytes.length = own.length + rest.length := by
    intro bytes hbytes
    rw [hcons] at hbytes
    obtain ⟨own, hown, hbytes⟩ := Outcome.bind_eq_ok.mp hbytes
    obtain ⟨rest, hrest, hbytes⟩ := Outcome.bind_eq_ok.mp hbytes
    obtain rfl := Outcome.ok.inj hbytes
    exact ⟨own, rest, hown, hrest, List.length_append⟩
  refine ⟨?_, ?_, ?_⟩
  · intro hself
    obtain ⟨hspecial, hrest⟩ := hboth.mp hself
    rw [hcons, tokenBytes_selfSpelled token hspecial, Outcome.ok_bind, hafter.faithful hrest,
      Outcome.ok_bind, Utf8.encode_append]
  · intro bytes hbytes
    obtain ⟨own, rest, hown, hrest, hlen⟩ := hsplit bytes hbytes
    have hle := (tokenBytes_length hown).1
    have hle' := hafter.length_le rest hrest
    rw [byteLen_append]
    omega
  · -- both parts have as many bytes as they can only if neither lost one
    intro bytes hbytes heq
    obtain ⟨own, rest, hown, hrest, hlen⟩ := hsplit bytes hbytes
    have hle := (tokenBytes_length hown).1
    have hle' := hafter.length_le rest hrest
    rw [byteLen_append] at heq
    exact hboth.mpr ⟨(tokenBytes_length hown).2 (by omega),
      hafter.length_lt rest hrest (by omega)⟩

/-- **Key lemma.** By induction on the passes of the encoding loop: each takes a
special token or a whole piece off the front of what is left. -/
theorem encodeBpeFrom_decodesTo (hwf : tokenizer.WellFormed) {cls : CharClass}
    {includeControl : Bool} {text before rest : Str} {fuel byteStart : Nat} {ids : List TokenId}
    (htext : text = before ++ rest) (hstart : byteStart = byteLen before)
    (h : tokenizer.encodeBpeFrom cls text includeControl fuel byteStart = .ok ids) :
    DecodesTo tokenizer includeControl rest ids := by
  induction fuel generalizing byteStart before rest ids with
  | zero => cases h
  | succ fuel ih =>
    subst hstart
    rw [encodeBpeFrom] at h
    split at h
    · split at h
      · -- a special token, looked up under its own text
        rename_i id tokenLen hcontrol
        obtain ⟨later, hlater, h⟩ := Outcome.bind_eq_ok.mp h
        obtain rfl := Outcome.ok.inj h
        obtain ⟨⟨special, len⟩, hat, hcontrol⟩ := Option.bind_eq_some_iff.mp hcontrol
        obtain ⟨id', hid, hpair⟩ := Option.bind_eq_some_iff.mp hcontrol
        obtain ⟨rfl, rfl⟩ := Prod.mk.inj (Option.some.inj hpair)
        rw [htext, longestControlTokenAt_append] at hat
        obtain ⟨token, hlongest, hpair⟩ := Option.map_eq_some_iff.mp hat
        obtain ⟨rfl, rfl⟩ := Prod.mk.inj hpair
        obtain ⟨after, hrest, hscan⟩ := matchedSpecials_of_match hlongest
        rw [hrest] at hscan ⊢
        have htext' : text = (before ++ token.text) ++ after := by
          rw [htext, hrest, List.append_assoc]
        have hstart' : byteLen before + byteLen token.text = byteLen (before ++ token.text) :=
          (byteLen_append before token.text).symm
        exact DecodesTo.special hwf hid hscan (ih htext' hstart' hlater)
      · -- the piece up to the next special token, or to the end
        obtain ⟨next, hnext, h⟩ := Outcome.bind_eq_ok.mp h
        obtain ⟨piece, hslice, h⟩ := Outcome.bind_eq_ok.mp h
        obtain ⟨segments, hsegments, h⟩ := Outcome.bind_eq_ok.mp h
        obtain ⟨own, hown, h⟩ := Outcome.bind_eq_ok.mp h
        obtain ⟨later, hlater, h⟩ := Outcome.bind_eq_ok.mp h
        obtain rfl := Outcome.ok.inj h
        obtain ⟨piece', after, hrest, hend, hscan⟩ := nextControlTokenStart_spec htext hnext
        obtain ⟨front, back, hcut, hfront, hstop⟩ :=
          slice_eq_some.mp (Outcome.orPanic_eq_ok.mp hslice)
        -- the slice is the piece the search stopped after
        have hsame := append_inj_of_byteLen
          (show front ++ (piece ++ back) = before ++ rest by
            rw [← List.append_assoc, ← hcut, htext]) hfront
        obtain ⟨rfl, hpieces⟩ := hsame
        rw [hrest] at hpieces
        obtain ⟨rfl, rfl⟩ := append_inj_of_byteLen hpieces (by omega)
        rw [hrest] at hscan ⊢
        have hbytes := encodeBpeSegments_bytes hwf hown
        rw [bpePretokenizeWith_flatten hsegments] at hbytes
        have htext' : text = (front ++ piece) ++ back := by
          rw [htext, hrest, List.append_assoc]
        have hstart' : next.getD (byteLen text) = byteLen (front ++ piece) := by
          rw [byteLen_append, hstop]
        exact DecodesTo.piece hbytes hscan (ih htext' hstart' hlater)
    · rename_i hdone
      obtain rfl := Outcome.ok.inj h
      have hlen : byteLen text = byteLen before + byteLen rest := by
        rw [htext, byteLen_append]
      obtain rfl := byteLen_eq_zero.mp (show byteLen rest = 0 by omega)
      exact DecodesTo.nil includeControl

theorem roundTrip_iff {file : Gguf.GgufFile} (hfile : Tokenizer.fromGguf file = .ok tokenizer)
    (hmodel : tokenizer.model = .Gpt2Bpe) {cls : CharClass} {text : Str} {parseSpecial : Bool}
    {ids : List TokenId} (hencode : tokenizer.encode cls text false parseSpecial = .ok ids) :
    tokenizer.decode ids false = .ok text ↔
      tokenizer.SpecialsSelfSpelled parseSpecial text := by
  have hwf := fromGguf_wellFormed hfile
  have hto : DecodesTo tokenizer parseSpecial text ids := by
    obtain ⟨body, hbody, h⟩ := Outcome.bind_eq_ok.mp hencode
    simp only [Bool.false_and, Bool.false_eq_true, if_false, List.nil_append,
      List.append_nil] at h
    obtain rfl := Outcome.ok.inj h
    simp only [encodeBody, hmodel] at hbody
    split at hbody
    · rename_i hempty
      obtain rfl := Outcome.ok.inj hbody
      rw [List.isEmpty_iff.mp hempty]
      exact DecodesTo.nil parseSpecial
    · exact encodeBpeFrom_decodesTo hwf (List.nil_append text).symm byteLen_nil.symm hbody
  simp only [decode, hmodel, decodeBpe]
  constructor
  · intro h
    obtain ⟨bytes, hbytes, h⟩ := Outcome.bind_eq_ok.mp h
    -- a text that was read back had all its bytes
    have hread : Utf8.decodePrefix bytes = text := by
      rw [← readableText_eq]
      exact Outcome.ok.inj h
    have hfront := Utf8.encode_decodePrefix_isPrefix bytes
    rw [hread] at hfront
    have hge := hfront.length_le
    rw [length_encode] at hge
    have hle := hto.length_le bytes hbytes
    exact hto.length_lt bytes hbytes (by omega)
  · intro hself
    rw [hto.faithful hself, Outcome.ok_bind, readableText_eq, Utf8.decodePrefix_encode]

/-- **The round trip.** For a byte-level BPE tokenizer that was accepted, the ids
of a text decode to it exactly when the special tokens matched in it are spelled
in the characters that the byte alphabet leaves alone. -/
theorem decode_encode_iff {file : Gguf.GgufFile} {tokenizer : Tokenizer}
    (hfile : Tokenizer.fromGguf file = .ok tokenizer) (hmodel : tokenizer.model = .Gpt2Bpe)
    (cls : CharClass) (text : Str) (parseSpecial : Bool) (ids : List TokenId)
    (hencode : tokenizer.encode cls text false parseSpecial = .ok ids) :
    tokenizer.decode ids false = .ok text ↔
      tokenizer.SpecialsSelfSpelled parseSpecial text :=
  roundTrip_iff hfile hmodel hencode

/-- Classification of the ASCII characters, enough for an ASCII text. -/
def asciiClass : CharClass where
  isLetter := Char.isAlpha
  isNumber := Char.isDigit
  isWhitespace := Char.isWhitespace
  isMark _ := false

/-- A byte-level vocabulary of the token `a` and one user-defined token. -/
def userDefinedFile (special : String) : Gguf.GgufFile where
  version := 3
  tensorCount := 0
  metadataCount := 4
  alignment := 32
  dataStartOffset := 0
  metadata :=
    (((∅ : Gguf.Metadata).insert "tokenizer.ggml.model".toList (.String "gpt2".toList)).insert
      "tokenizer.ggml.pre".toList (.String "llama-bpe".toList)).insert
      "tokenizer.ggml.tokens".toList (.Array [.String ['a'], .String special.toList])
    |>.insert "tokenizer.ggml.token_type".toList (.Array [.I32 1, .I32 4])
  tensors := []

/-- With the special token `<x>` the text `a<x>` comes back. -/
theorem decode_encode_markup :
    ∃ tokenizer, Tokenizer.fromGguf (userDefinedFile "<x>") = .ok tokenizer ∧
      tokenizer.encode asciiClass "a<x>".toList false false = .ok [0, 1] ∧
      tokenizer.matchedSpecials false "a<x>".toList = ["<x>".toList] ∧
      tokenizer.decode [0, 1] false = .ok "a<x>".toList := by
  -- one evaluation of the construction for everything read off its result
  have hrun : (Tokenizer.fromGguf (userDefinedFile "<x>") >>= fun tokenizer =>
      tokenizer.encode asciiClass "a<x>".toList false false >>= fun ids =>
        .ok (tokenizer.model, ids, tokenizer.matchedSpecials false "a<x>".toList)) =
      .ok (.Gpt2Bpe, [0, 1], ["<x>".toList]) := by
    decide +kernel
  obtain ⟨tokenizer, hfile, hrun⟩ := Outcome.bind_eq_ok.mp hrun
  obtain ⟨ids, hencode, hrun⟩ := Outcome.bind_eq_ok.mp hrun
  obtain ⟨hmodel, hrest⟩ := Prod.mk.inj (Outcome.ok.inj hrun)
  obtain ⟨rfl, hspecials⟩ := Prod.mk.inj hrest
  refine ⟨tokenizer, hfile, hencode, hspecials, ?_⟩
  refine (decode_encode_iff hfile hmodel asciiClass _ false _ hencode).mpr ?_
  have hall : "<x>".toList.all (fun ch => decide (SelfSpelled ch)) = true := by
    decide +kernel
  rw [SpecialsSelfSpelled, hspecials]
  intro special hspecial ch hch
  obtain rfl := List.mem_singleton.mp hspecial
  exact of_decide_eq_true (List.all_eq_true.mp hall ch hch)

/-- With a special token of two spaces the text of two spaces does not. -/
theorem decode_encode_spaces :
    ∃ tokenizer, Tokenizer.fromGguf (userDefinedFile "  ") = .ok tokenizer ∧
      tokenizer.model = .Gpt2Bpe ∧
      tokenizer.encode asciiClass "  ".toList false false = .ok [1] ∧
      tokenizer.decode [1] false = .err (.InvalidTokenizerMetadata
        "GPT-2/BPE token \"  \" contains non-byte character ' '") := by
  have hrun : (Tokenizer.fromGguf (userDefinedFile "  ") >>= fun tokenizer =>
      (.ok (tokenizer.model, tokenizer.encode asciiClass "  ".toList false false,
        tokenizer.decode [1] false) : EngineResult _)) =
      .ok (.Gpt2Bpe, .ok [1], .err (.InvalidTokenizerMetadata
        "GPT-2/BPE token \"  \" contains non-byte character ' '")) := by
    decide +kernel
  obtain ⟨tokenizer, hfile, hrun⟩ := Outcome.bind_eq_ok.mp hrun
  obtain ⟨hmodel, hrest⟩ := Prod.mk.inj (Outcome.ok.inj hrun)
  obtain ⟨hencode, hdecode⟩ := Prod.mk.inj hrest
  exact ⟨tokenizer, hfile, hmodel, hencode, hdecode⟩

/-! ## Which vocabularies round-trip every text -/

theorem maxByKey_isSome {α : Type} (key : α → Nat) {as : List α} {b : α} (hb : b ∈ as) :
    ∃ a, maxByKey key as = some a := by
  cases as with
  | nil => cases hb
  | cons head tail =>
    rw [maxByKey]
    split
    · exact ⟨head, rfl⟩
    · split
      · exact ⟨head, rfl⟩
      · exact ⟨_, rfl⟩

theorem maxByKey_le {α : Type} {key : α → Nat} {as : List α} {a b : α} (hb : b ∈ as)
    (h : maxByKey key as = some a) : key b ≤ key a := by
  induction as generalizing a with
  | nil => cases hb
  | cons head tail ih =>
    rw [maxByKey] at h
    rcases List.mem_cons.mp hb with rfl | hb
    · split at h
      · obtain rfl := Option.some.inj h
        exact Nat.le_refl _
      · split at h
        · obtain rfl := Option.some.inj h
          exact Nat.le_refl _
        · obtain rfl := Option.some.inj h
          omega
    · -- the tail has a best element, which the head only replaces by a larger one
      obtain ⟨best, hbest⟩ := maxByKey_isSome key hb
      have hle := ih hb hbest
      rw [hbest] at h
      dsimp only at h
      split at h
      · obtain rfl := Option.some.inj h
        omega
      · obtain rfl := Option.some.inj h
        exact hle

/-- The text of a partition token is matched whole, by a token with that text. -/
theorem longestControlToken_self {includeControl : Bool} {token : Token}
    (hmem : token ∈ tokenizer.tokens) (hkind : isPartitionToken includeControl token = true) :
    ∃ found, tokenizer.longestControlToken includeControl token.text = some found ∧
      found.text = token.text := by
  have hcandidate : token ∈ tokenizer.tokens.filter fun t =>
      isPartitionToken includeControl t && t.text.isPrefixOf token.text := by
    refine List.mem_filter.mpr ⟨hmem, ?_⟩
    rw [hkind, Bool.true_and, List.isPrefixOf_iff_prefix]
  obtain ⟨found, hfound⟩ := maxByKey_isSome (fun t => byteLen t.text) hcandidate
  refine ⟨found, hfound, ?_⟩
  obtain ⟨-, -, rest, hrest⟩ := longestControlToken_spec hfound
  have hle := maxByKey_le hcandidate hfound
  have hlen := congrArg byteLen hrest
  rw [byteLen_append] at hlen
  rw [byteLen_eq_zero.mp (show byteLen rest = 0 by omega), List.append_nil] at hrest
  exact hrest

theorem encodeBpeFrom_end (cls : CharClass) (parseSpecial : Bool) {text : Str} {fuel : Nat}
    (hfuel : fuel ≠ 0) :
    tokenizer.encodeBpeFrom cls text parseSpecial fuel (byteLen text) = .ok [] := by
  cases fuel with
  | zero => exact absurd rfl hfuel
  | succ fuel => rw [encodeBpeFrom, if_neg (Nat.lt_irrefl _)]

/-- So encoding it gives one id. -/
theorem encode_partitionToken (hwf : tokenizer.WellFormed) (hmodel : tokenizer.model = .Gpt2Bpe)
    (cls : CharClass) {parseSpecial : Bool} {token : Token} (hmem : token ∈ tokenizer.tokens)
    (hkind : isPartitionToken parseSpecial token = true) :
    ∃ id, tokenizer.encode cls token.text false parseSpecial = .ok [id] := by
  obtain ⟨found, hfound, htext⟩ := longestControlToken_self hmem hkind
  obtain ⟨i, hi⟩ := List.mem_iff_getElem?.mp hmem
  obtain ⟨id, hid, -⟩ := hwf.indexed.latest i token hi
  obtain ⟨-, hne, -⟩ := longestControlToken_spec hfound
  rw [htext] at hne
  have hpos : 0 < byteLen token.text :=
    Nat.pos_of_ne_zero fun hzero => hne (byteLen_eq_zero.mp hzero)
  have hcontrol : tokenizer.controlIdAt token.text 0 parseSpecial =
      some (id, byteLen token.text) := by
    have hat := tokenizer.longestControlTokenAt_append parseSpecial [] token.text
    rw [hfound, List.nil_append, byteLen_nil] at hat
    unfold controlIdAt
    rw [hat]
    show Option.bind (tokenizer.tokenToId.lookup found.text) _ = _
    rw [htext, hid]
    rfl
  refine ⟨id, ?_⟩
  have hbody : tokenizer.encodeBody cls token.text parseSpecial = .ok [id] := by
    simp only [encodeBody, hmodel]
    rw [if_neg (by rwa [List.isEmpty_iff]), encodeBpeText, encodeBpeFrom, if_pos hpos, hcontrol]
    -- one pass takes the token, the next one is at the end of the text
    dsimp only
    rw [Nat.zero_add, encodeBpeFrom_end cls parseSpecial (Nat.ne_of_gt hpos), Outcome.ok_bind]
  rw [encode, hbody]
  rfl

theorem matchedSpecials_partition {includeControl : Bool} {text special : Str}
    (h : special ∈ tokenizer.matchedSpecials includeControl text) :
    ∃ token ∈ tokenizer.tokens, isPartitionToken includeControl token = true ∧
      token.text = special := by
  unfold matchedSpecials at h
  generalize 0 = skip at h
  induction text generalizing skip with
  | nil =>
    rw [scanSpecials] at h
    cases h
  | cons ch chs ih =>
    cases skip with
    | succ skip => exact ih skip h
    | zero =>
      rw [scanSpecials] at h
      split at h
      · rename_i token hlongest
        rcases List.mem_cons.mp h with rfl | h
        · obtain ⟨hmem, hmatch⟩ := List.mem_filter.mp (maxByKey_mem hlongest)
          exact ⟨token, hmem, (Bool.and_eq_true_iff.mp hmatch).1, rfl⟩
        · exact ih _ h
      · exact ih 0 h

/-- A vocabulary round-trips every text it can encode exactly when all the tokens
it matches in raw text are spelled in `!` to `~`. -/
theorem roundTrips_iff {file : Gguf.GgufFile} (hfile : Tokenizer.fromGguf file = .ok tokenizer)
    (hmodel : tokenizer.model = .Gpt2Bpe) (cls : CharClass) (parseSpecial : Bool) :
    (∀ text ids, tokenizer.encode cls text false parseSpecial = .ok ids →
      tokenizer.decode ids false = .ok text) ↔
    ∀ token ∈ tokenizer.tokens, isPartitionToken parseSpecial token = true →
      ∀ ch ∈ token.text, SelfSpelled ch := by
  constructor
  · intro h token hmem hkind
    -- the token's own text is a text to round-trip
    obtain ⟨id, hencode⟩ := encode_partitionToken (fromGguf_wellFormed hfile) hmodel cls hmem hkind
    obtain ⟨found, hfound, htext⟩ := longestControlToken_self hmem hkind
    obtain ⟨later, -, hscan⟩ := matchedSpecials_of_match hfound
    have hself := (roundTrip_iff hfile hmodel hencode).mp (h token.text [id] hencode)
    refine hself token.text ?_
    rw [hscan, htext]
    exact List.mem_cons_self
  · intro h text ids hencode
    refine (roundTrip_iff hfile hmodel hencode).mpr ?_
    intro special hspecial
    obtain ⟨token, hmem, hkind, rfl⟩ := matchedSpecials_partition hspecial
    exact h token hmem hkind

end Tokenizer

end CamelidEnterprise

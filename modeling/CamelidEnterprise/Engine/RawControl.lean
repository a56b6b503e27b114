import CamelidEnterprise.Engine.EncodeTotal

/-!
# Camelid Enterprise — raw text without control ids

Nothing on the raw paths of `encode` keeps a looked-up text from being that of a control
token. What a path can look up lies in the text, though: a SentencePiece path takes parts of
the normalized text, and the bytes of characters that are no token; a byte-level path takes
the user-defined tokens of the text, and what its bytes can be merged to. So a text in which
none of these is a control token is encoded without control ids.

* `encode_controlFree` — such texts, for every vocabulary that construction accepts;
* `encode_injected` — a text that spells a control token, and gets its id.
-/

namespace CamelidEnterprise

open Foundation Foundation.Text

-- ---------------------------------------------------------------------------
-- What symbols are merged to
-- ---------------------------------------------------------------------------

/-- A symbol of one character, or one that a ranked pair is merged to. -/
def BpeRegistry.Makes (registry : BpeRegistry) (symbol : Str) : Prop :=
  symbol.length = 1 ∨ ∃ left right, (registry.rank left right).isSome ∧ left ++ right = symbol

section Merging

variable {registry : BpeRegistry} {P : Str → Prop}

/-- A pass leaves symbols as they are, or puts the pair together. -/
theorem mergePair_forall {left right : Str} {symbols : List Str} (h : ∀ s ∈ symbols, P s)
    (hpair : P (left ++ right)) : ∀ s ∈ mergePair left right symbols, P s := by
  induction symbols using mergePair.induct left right with
  | case1 a b rest hmatch ih =>
    obtain ⟨rfl, rfl⟩ := hmatch
    rw [mergePair, if_pos ⟨rfl, rfl⟩]
    refine List.forall_mem_cons.mpr ⟨hpair, ih fun s hs => h s ?_⟩
    exact List.mem_cons_of_mem _ (List.mem_cons_of_mem _ hs)
  | case2 a b rest hmatch ih =>
    rw [mergePair, if_neg hmatch]
    exact List.forall_mem_cons.mpr
      ⟨h a List.mem_cons_self, ih fun s hs => h s (List.mem_cons_of_mem _ hs)⟩
  | case3 symbols hshort =>
    rw [mergePair]
    · exact h
    · exact hshort

/-- Merging keeps what holds of the symbols it starts from and passes on to a ranked pair. -/
theorem mergeSymbolsFuel_forall
    (hpair : ∀ left right, (registry.rank left right).isSome → P left → P right → P (left ++ right))
    {fuel : Nat} {symbols merged : List Str} (hstart : ∀ s ∈ symbols, P s)
    (h : mergeSymbolsFuel registry fuel symbols = .ok merged) : ∀ s ∈ merged, P s := by
  induction fuel generalizing symbols with
  | zero => cases h
  | succ fuel ih =>
    rcases BpeRegistry.mergeSymbolsFuel_cases registry fuel symbols with
      ⟨-, hrun⟩ | ⟨left, right, rank, front, back, rfl, hrank, -, hrun⟩
    · obtain rfl := Outcome.ok.inj (hrun.symm.trans h)
      exact hstart
    · rw [hrun] at h
      have hleft := hstart left (by simp)
      have hright := hstart right (by simp)
      exact ih (mergePair_forall hstart (hpair left right (by rw [hrank]; rfl) hleft hright)) h

/-- Characters are merged to symbols that the registry makes, none of them empty. -/
theorem mergeSymbols_makes {chars : Str} {merged : List Str}
    (h : registry.mergeSymbols (chars.map fun ch => [ch]) = .ok merged) :
    ∀ s ∈ merged, s ≠ [] ∧ registry.Makes s := by
  refine mergeSymbolsFuel_forall (fun left right hrank hleft _ => ?_) ?_ h
  · exact ⟨fun hnil => hleft.1 (List.append_eq_nil_iff.mp hnil).1, .inr ⟨left, right, hrank, rfl⟩⟩
  · intro s hs
    obtain ⟨ch, -, rfl⟩ := List.mem_map.mp hs
    exact ⟨List.cons_ne_nil _ _, .inl rfl⟩

theorem flatten_singletons (chars : Str) : (chars.map fun ch => [ch]).flatten = chars := by
  induction chars with
  | nil => rfl
  | cons ch chars ih =>
    rw [List.map_cons, List.flatten_cons, ih]
    rfl

end Merging

namespace Tokenizer

variable {tokenizer : Tokenizer}

-- ---------------------------------------------------------------------------
-- Texts that are safe
-- ---------------------------------------------------------------------------

/-- Of the tokens that a path can reach, none that the text spells is found as a control
token. -/
def SpellsNone (tokenizer : Tokenizer) (reaches : Token → Prop) (text : Str) : Prop :=
  ∀ token ∈ tokenizer.tokens, reaches token → token.text ≠ [] → token.text <:+: text →
    tokenizer.controlHit (.text token.text) = false

/-- No byte of a character that is no token falls back on a control token. -/
def FallbackFree (tokenizer : Tokenizer) (text : Str) : Prop :=
  ∀ ch ∈ text, tokenizer.tokenToId.lookup [ch] = none → ∀ byte ∈ Utf8.encode [ch],
    tokenizer.controlHit (.byte byte) = false

instance (reaches : Token → Prop) [DecidablePred reaches] (text : Str) :
    Decidable (tokenizer.SpellsNone reaches text) :=
  inferInstanceAs (Decidable (∀ token ∈ tokenizer.tokens, reaches token → token.text ≠ [] →
    token.text <:+: text → tokenizer.controlHit (.text token.text) = false))

instance (text : Str) : Decidable (tokenizer.FallbackFree text) :=
  have (ch : Char) : Decidable (∀ byte ∈ Utf8.encode [ch],
      tokenizer.controlHit (.byte byte) = false) := List.decidableBAll _ _
  -- over the text, not over all characters
  List.decidableBAll (fun ch => tokenizer.tokenToId.lookup [ch] = none →
    ∀ byte ∈ Utf8.encode [ch], tokenizer.controlHit (.byte byte) = false) text

/-- The bytes of a text in the byte alphabet. -/
def byteSpelled (text : Str) : Str := (Utf8.encode text).map bpeByteToChar

/-- Nothing that a raw path can look up in the text is a control token. -/
def RawSafe (tokenizer : Tokenizer) (text : Str) : Prop :=
  match tokenizer.model with
  | .LlamaSpm => ∀ normalized, tokenizer.normalizeSpmText text false = .ok normalized →
    tokenizer.SpellsNone (fun _ => True) normalized ∧ tokenizer.FallbackFree normalized
  | .Gpt2Bpe => tokenizer.SpellsNone (fun token => token.kind = .UserDefined) text ∧
    tokenizer.SpellsNone (fun token => tokenizer.bpeRegistry.Makes token.text) (byteSpelled text)

/-- A hit that lies in a normalized text. -/
def Within (tokenizer : Tokenizer) (text : Str) : RawHit → Prop
  | .text s => s ≠ [] ∧ s <:+: text
  | .byte b => ∃ ch ∈ text, tokenizer.tokenToId.lookup [ch] = none ∧ b ∈ Utf8.encode [ch]

theorem Within.mono {text text' : Str} (hle : text <:+: text') {hit : RawHit}
    (h : tokenizer.Within text hit) : tokenizer.Within text' hit := by
  rcases hit with s | b
  · exact ⟨h.1, h.2.trans hle⟩
  · obtain ⟨ch, hch, hmissing, hb⟩ := h
    exact ⟨ch, hle.subset hch, hmissing, hb⟩

/-- A text that is looked up is that of a token. -/
theorem SpellsNone.controlHit (hwf : tokenizer.WellFormed) {reaches : Token → Prop} {text s : Str}
    (h : tokenizer.SpellsNone reaches text) (hne : s ≠ []) (hs : s <:+: text)
    (hreaches : ∀ token ∈ tokenizer.tokens, token.text = s → reaches token) :
    tokenizer.controlHit (.text s) = false := by
  unfold Tokenizer.controlHit hitId
  dsimp only
  rcases hid : tokenizer.tokenToId.lookup s with _ | id
  · rfl
  · obtain ⟨token, htoken, rfl⟩ := hwf.indexed.texts s id hid
    have hmem := List.mem_of_getElem? htoken
    have hfree := h token hmem (hreaches token hmem rfl) hne hs
    unfold Tokenizer.controlHit hitId at hfree
    dsimp only at hfree
    rwa [hid] at hfree

-- ---------------------------------------------------------------------------
-- SentencePiece
-- ---------------------------------------------------------------------------

/-- A search that has a candidate keeps one. -/
theorem bestGreedy_some {piece : Str} {byteStart : Nat} {ends : List Nat}
    {found : Nat × TokenId × UInt32} {result : Option (Nat × TokenId × UInt32)}
    (h : tokenizer.bestGreedy piece byteStart ends (some found) = .ok result) : result ≠ none := by
  induction ends generalizing found with
  | nil =>
    obtain rfl := Outcome.ok.inj h
    exact Option.some_ne_none _
  | cons byteEnd ends ih =>
    rw [bestGreedy] at h
    obtain ⟨candidate, -, h⟩ := Outcome.bind_eq_ok.mp h
    split at h
    · exact ih h
    split at h
    · exact ih h
    obtain ⟨token, -, h⟩ := Outcome.bind_eq_ok.mp h
    dsimp only at h
    split at h
    · exact ih h
    · exact ih h

/-- Where nothing matches, the first character is no token. -/
theorem lookup_none_of_bestGreedy {before tail : Str} {ch : Char}
    (h : tokenizer.bestGreedy (before ++ ch :: tail) (byteLen before)
      ((charIndices (ch :: tail) (byteLen before)).drop 1 ++
        [byteLen (before ++ ch :: tail)]) none = .ok none) :
    tokenizer.tokenToId.lookup [ch] = none := by
  obtain ⟨ends, hends⟩ : ∃ ends, (charIndices (ch :: tail) (byteLen before)).drop 1 ++
      [byteLen (before ++ ch :: tail)] = (byteLen before + ch.utf8Size) :: ends := by
    rw [charIndices, List.drop_succ_cons, List.drop_zero]
    rcases tail with _ | ⟨ch', tail⟩
    · exact ⟨[], by simp [charIndices]⟩
    · exact ⟨_, by rw [charIndices]; rfl⟩
  have hslice : slice (before ++ ch :: tail) (byteLen before) (byteLen before + ch.utf8Size) =
      some [ch] := slice_eq_some.mpr ⟨before, tail, by simp, rfl, by simp⟩
  have hshort : contains [spmSpace, spmSpace] [ch] = false := by
    simp [contains, spmSpace, List.isPrefixOf]
  rw [hends, bestGreedy, hslice, Outcome.orPanic, Outcome.ok_bind, hshort,
    if_neg Bool.false_ne_true] at h
  rcases hid : tokenizer.tokenToId.lookup [ch] with _ | id
  · rfl
  · rw [hid] at h
    obtain ⟨token, -, h⟩ := Outcome.bind_eq_ok.mp h
    exact absurd rfl (bestGreedy_some h)

/-- What is matched greedily lies in the text. -/
theorem greedyHitsFrom_within (h : tokenizer.Bounded) {before rest : Str} {fuel : Nat}
    {hits : List RawHit}
    (hhits : tokenizer.greedyHitsFrom (before ++ rest) fuel (byteLen before) = .ok hits) :
    ∀ hit ∈ hits, tokenizer.Within rest hit := by
  induction fuel generalizing before rest hits with
  | zero => cases hhits
  | succ fuel ih =>
    rw [greedyHitsFrom] at hhits
    split at hhits
    · rename_i hmore
      have hne := rest_ne_nil hmore
      obtain ⟨best, hsearch, hbest⟩ := bestGreedy_turn h before hne
      rw [sliceFrom_append, Outcome.orPanic, Outcome.ok_bind, hsearch, Outcome.ok_bind] at hhits
      rcases best with _ | ⟨len, id, score⟩
      · -- the bytes of one character
        obtain ⟨ch, tail, rfl⟩ := List.exists_cons_of_ne_nil hne
        have hmissing := lookup_none_of_bestGreedy hsearch
        dsimp only at hhits
        rw [List.head?_cons, Outcome.orPanic, Outcome.ok_bind] at hhits
        obtain ⟨later, hlater, hhits⟩ := Outcome.bind_eq_ok.mp hhits
        obtain rfl := Outcome.ok.inj hhits
        have hbefore : byteLen before + ch.utf8Size = byteLen (before ++ [ch]) := by simp
        rw [hbefore, show before ++ ch :: tail = (before ++ [ch]) ++ tail by simp] at hlater
        intro hit hhit
        rcases List.mem_append.mp hhit with hown | hrest
        · obtain ⟨byte, hbyte, rfl⟩ := List.mem_map.mp hown
          exact ⟨ch, List.mem_cons_self, hmissing, hbyte⟩
        · exact (ih hlater hit hrest).mono (List.suffix_cons ch tail).isInfix
      · -- a front part of what is left
        obtain ⟨front, after, hfront, rfl, rfl, -⟩ := hbest len id score rfl
        have hslice : slice (before ++ (front ++ after)) (byteLen before)
            (byteLen before + byteLen front) = some front :=
          slice_eq_some.mpr ⟨before, after, by rw [List.append_assoc], rfl, rfl⟩
        dsimp only at hhits
        rw [hslice, Outcome.orPanic, Outcome.ok_bind] at hhits
        obtain ⟨later, hlater, hhits⟩ := Outcome.bind_eq_ok.mp hhits
        obtain rfl := Outcome.ok.inj hhits
        rw [← List.append_assoc, ← byteLen_append] at hlater
        refine List.forall_mem_cons.mpr ⟨⟨hfront, (List.prefix_append front after).isInfix⟩, ?_⟩
        exact fun hit hhit => (ih hlater hit hhit).mono (List.suffix_append front after).isInfix
    · obtain rfl := Outcome.ok.inj hhits
      exact fun hit hhit => absurd hhit List.not_mem_nil

theorem greedyHits_within (h : tokenizer.Bounded) {piece : Str} {hits : List RawHit}
    (hhits : tokenizer.greedyHits piece = .ok hits) : ∀ hit ∈ hits, tokenizer.Within piece hit := by
  have hfront : tokenizer.greedyHitsFrom ([] ++ piece) _ (byteLen []) = .ok hits := hhits
  exact greedyHitsFrom_within h hfront

/-- So does what symbols merged by rank are looked up for. -/
theorem rankedHits_within (h : tokenizer.Bounded) {symbols : List Str} {unresolved : Str}
    {hits : List RawHit} (hne : ∀ s ∈ symbols, s ≠ [])
    (hhits : tokenizer.rankedHits symbols unresolved = .ok hits) :
    ∀ hit ∈ hits, tokenizer.Within (unresolved ++ symbols.flatten) hit := by
  have hwaiting : ∀ {unresolved : Str} {hits : List RawHit},
      (if unresolved.isEmpty then .ok [] else tokenizer.greedyHits unresolved) = .ok hits →
      ∀ hit ∈ hits, tokenizer.Within unresolved hit := by
    intro unresolved hits hhits
    split at hhits
    · obtain rfl := Outcome.ok.inj hhits
      exact fun hit hhit => absurd hhit List.not_mem_nil
    · exact greedyHits_within h hhits
  induction symbols generalizing unresolved hits with
  | nil =>
    rw [List.flatten_nil, List.append_nil]
    exact hwaiting hhits
  | cons symbol symbols ih =>
    obtain ⟨hsymbol, hlater⟩ := List.forall_mem_cons.mp hne
    rw [rankedHits] at hhits
    rw [List.flatten_cons]
    split at hhits
    · obtain ⟨own, hown, hhits⟩ := Outcome.bind_eq_ok.mp hhits
      obtain ⟨later, hrest, hhits⟩ := Outcome.bind_eq_ok.mp hhits
      obtain rfl := Outcome.ok.inj hhits
      intro hit hhit
      rcases List.mem_append.mp hhit with hhit | hhit
      · exact (hwaiting hown hit hhit).mono (List.prefix_append _ _).isInfix
      rcases List.mem_cons.mp hhit with rfl | hhit
      · exact ⟨hsymbol, unresolved, symbols.flatten, by rw [List.append_assoc]⟩
      · refine (ih hlater hrest hit hhit).mono ?_
        rw [List.nil_append, ← List.append_assoc]
        exact (List.suffix_append _ _).isInfix
    · rw [← List.append_assoc]
      exact ih hlater hhits

theorem Within.controlHit (hwf : tokenizer.WellFormed) {text : Str}
    (hspelled : tokenizer.SpellsNone (fun _ => True) text) (hfallback : tokenizer.FallbackFree text)
    {hit : RawHit} (h : tokenizer.Within text hit) : tokenizer.controlHit hit = false := by
  rcases hit with s | b
  · exact hspelled.controlHit hwf h.1 h.2 fun _ _ _ => trivial
  · obtain ⟨ch, hch, hmissing, hb⟩ := h
    exact hfallback ch hch hmissing b hb

-- ---------------------------------------------------------------------------
-- Byte-level BPE
-- ---------------------------------------------------------------------------

/-- A hit in a byte-level text: a user-defined token of it, or what its bytes are merged
to. -/
def BpeWithin (tokenizer : Tokenizer) (text : Str) : RawHit → Prop
  | .text s => s ≠ [] ∧
    ((s <:+: text ∧ ∃ token ∈ tokenizer.tokens, token.kind = .UserDefined ∧ token.text = s) ∨
      (s <:+: byteSpelled text ∧ tokenizer.bpeRegistry.Makes s))
  | .byte _ => False

theorem byteSpelled_append (text text' : Str) :
    byteSpelled (text ++ text') = byteSpelled text ++ byteSpelled text' := by
  unfold byteSpelled
  rw [Utf8.encode_append, List.map_append]

theorem byteSpelled_within {text text' : Str} (h : text <:+: text') :
    byteSpelled text <:+: byteSpelled text' := by
  obtain ⟨front, back, rfl⟩ := h
  rw [byteSpelled_append, byteSpelled_append]
  exact List.infix_append _ _ _

theorem BpeWithin.mono {text text' : Str} (hle : text <:+: text') {hit : RawHit}
    (h : tokenizer.BpeWithin text hit) : tokenizer.BpeWithin text' hit := by
  rcases hit with s | b
  · obtain ⟨hne, ⟨hs, huser⟩ | ⟨hs, hmade⟩⟩ := h
    · exact ⟨hne, .inl ⟨hs.trans hle, huser⟩⟩
    · exact ⟨hne, .inr ⟨hs.trans (byteSpelled_within hle), hmade⟩⟩
  · exact h

/-- One symbol a byte, of one character each. -/
theorem byteSpelled_singletons (text : Str) :
    ((Utf8.encode text).map fun byte => [bpeByteToChar byte]) =
      (byteSpelled text).map fun ch => [ch] := by
  rw [byteSpelled, List.map_map]
  rfl

/-- A merged symbol is a piece of what was merged. -/
theorem mergeSymbols_within {registry : BpeRegistry} {chars : Str} {merged : List Str}
    (h : registry.mergeSymbols (chars.map fun ch => [ch]) = .ok merged) {symbol : Str}
    (hsymbol : symbol ∈ merged) : symbol <:+: chars := by
  have hflat := mergeSymbolsFuel_flatten h
  rw [flatten_singletons] at hflat
  obtain ⟨front, back, hsplit⟩ := List.append_of_mem hsymbol
  rw [← hflat, hsplit, List.flatten_append, List.flatten_cons, ← List.append_assoc]
  exact List.infix_append _ _ _

/-- The symbols of segments are made of their bytes. -/
theorem segmentHits_within {segments : List Str} {hits : List RawHit}
    (h : tokenizer.segmentHits segments = .ok hits) :
    ∀ hit ∈ hits, tokenizer.BpeWithin segments.flatten hit := by
  induction segments generalizing hits with
  | nil =>
    obtain rfl := Outcome.ok.inj h
    exact fun hit hhit => absurd hhit List.not_mem_nil
  | cons segment segments ih =>
    obtain ⟨symbols, hsymbols, h⟩ := Outcome.bind_eq_ok.mp h
    obtain ⟨later, hlater, h⟩ := Outcome.bind_eq_ok.mp h
    obtain rfl := Outcome.ok.inj h
    rw [List.flatten_cons]
    intro hit hhit
    rcases List.mem_append.mp hhit with hown | hrest
    · refine BpeWithin.mono (List.prefix_append segment segments.flatten).isInfix ?_
      obtain ⟨symbol, hsymbol, rfl⟩ := List.mem_map.mp hown
      split at hsymbols
      · obtain rfl := Outcome.ok.inj hsymbols
        exact absurd hsymbol List.not_mem_nil
      · rw [byteSpelled_singletons] at hsymbols
        obtain ⟨hne, hmakes⟩ := mergeSymbols_makes hsymbols symbol hsymbol
        exact ⟨hne, .inr ⟨mergeSymbols_within hsymbols hsymbol, hmakes⟩⟩
    · exact (ih hlater hit hrest).mono (List.suffix_append _ _).isInfix

/-- By induction on the passes: each takes a user-defined token or a whole piece off the
front of what is left. -/
theorem bpeHitsFrom_within {cls : CharClass} {text before rest : Str} {fuel byteStart : Nat}
    {hits : List RawHit} (htext : text = before ++ rest) (hstart : byteStart = byteLen before)
    (h : tokenizer.bpeHitsFrom cls text fuel byteStart = .ok hits) :
    ∀ hit ∈ hits, tokenizer.BpeWithin rest hit := by
  induction fuel generalizing byteStart before rest hits with
  | zero => cases h
  | succ fuel ih =>
    subst hstart
    rw [bpeHitsFrom] at h
    split at h
    · split at h
      · -- a user-defined token at the front is a hit of its own
        rename_i id tokenLen hcontrol
        obtain ⟨special, hslice, h⟩ := Outcome.bind_eq_ok.mp h
        obtain ⟨later, hlater, h⟩ := Outcome.bind_eq_ok.mp h
        obtain rfl := Outcome.ok.inj h
        obtain ⟨⟨tokenText, len⟩, hat, hcontrol⟩ := Option.bind_eq_some_iff.mp hcontrol
        obtain ⟨id', -, hpair⟩ := Option.bind_eq_some_iff.mp hcontrol
        obtain ⟨rfl, rfl⟩ := Prod.mk.inj (Option.some.inj hpair)
        rw [htext, longestControlTokenAt_append] at hat
        obtain ⟨token, hlongest, hpair⟩ := Option.map_eq_some_iff.mp hat
        obtain ⟨rfl, rfl⟩ := Prod.mk.inj hpair
        obtain ⟨hmem, hne, after, rfl⟩ := longestControlToken_spec hlongest
        have hkind : token.kind = .UserDefined := by
          have hmatch := (List.mem_filter.mp (maxByKey_mem hlongest)).2
          have hpart := (Bool.and_eq_true_iff.mp hmatch).1
          simpa [isPartitionToken, hne] using hpart
        have hspecial : special = token.text := by
          have hfront : slice text (byteLen before) (byteLen before + byteLen token.text) =
              some token.text :=
            slice_eq_some.mpr ⟨before, after, by rw [htext, List.append_assoc], rfl, rfl⟩
          exact Option.some.inj ((Outcome.orPanic_eq_ok.mp hslice).symm.trans hfront)
        have htext' : text = (before ++ token.text) ++ after := by rw [htext, List.append_assoc]
        have hstart' : byteLen before + byteLen token.text = byteLen (before ++ token.text) :=
          (byteLen_append before token.text).symm
        rw [hspecial]
        refine List.forall_mem_cons.mpr ⟨⟨hne, .inl ⟨?_, token, hmem, hkind, rfl⟩⟩, ?_⟩
        · exact (List.prefix_append _ _).isInfix
        · exact fun hit hhit =>
            (ih htext' hstart' hlater hit hhit).mono (List.suffix_append _ _).isInfix
      · -- the text up to the next one goes through the pre-tokenizer, which loses none of it
        obtain ⟨next, hnext, h⟩ := Outcome.bind_eq_ok.mp h
        obtain ⟨piece, hslice, h⟩ := Outcome.bind_eq_ok.mp h
        obtain ⟨segments, hsegments, h⟩ := Outcome.bind_eq_ok.mp h
        obtain ⟨own, hown, h⟩ := Outcome.bind_eq_ok.mp h
        obtain ⟨later, hlater, h⟩ := Outcome.bind_eq_ok.mp h
        obtain rfl := Outcome.ok.inj h
        obtain ⟨piece', after, hrest, hend, -⟩ := nextControlTokenStart_spec htext hnext
        have hfront : slice text (byteLen before) (next.getD (byteLen text)) = some piece' :=
          slice_eq_some.mpr ⟨before, after, by rw [htext, hrest, List.append_assoc], rfl, hend.symm⟩
        obtain rfl := Option.some.inj ((Outcome.orPanic_eq_ok.mp hslice).symm.trans hfront)
        have hpiece := segmentHits_within hown
        rw [bpePretokenizeWith_flatten hsegments] at hpiece
        have htext' : text = (before ++ piece) ++ after := by rw [htext, hrest, List.append_assoc]
        have hstart' : next.getD (byteLen text) = byteLen (before ++ piece) := by
          rw [byteLen_append, hend]
        rw [hrest]
        intro hit hhit
        rcases List.mem_append.mp hhit with hhit | hhit
        · exact (hpiece hit hhit).mono (List.prefix_append _ _).isInfix
        · exact (ih htext' hstart' hlater hit hhit).mono (List.suffix_append _ _).isInfix
    · obtain rfl := Outcome.ok.inj h
      exact fun hit hhit => absurd hhit List.not_mem_nil

theorem BpeWithin.controlHit (hwf : tokenizer.WellFormed) {text : Str}
    (huser : tokenizer.SpellsNone (fun token => token.kind = .UserDefined) text)
    (hmade : tokenizer.SpellsNone (fun token => tokenizer.bpeRegistry.Makes token.text)
      (byteSpelled text))
    {hit : RawHit} (h : tokenizer.BpeWithin text hit) : tokenizer.controlHit hit = false := by
  rcases hit with s | b
  · obtain ⟨hne, ⟨hs, token, htoken, hkind, rfl⟩ | ⟨hs, hmakes⟩⟩ := h
    · exact huser token htoken hkind hne hs
    · exact hmade.controlHit hwf hne hs fun token _ heq => heq ▸ hmakes
  · exact h.elim

-- ---------------------------------------------------------------------------
-- Both families
-- ---------------------------------------------------------------------------

/-- In a safe text no hit is a control token. -/
theorem RawSafe.rawHits_controlFree {file : Gguf.GgufFile}
    (hfile : Tokenizer.fromGguf file = .ok tokenizer) {cls : CharClass} {text : Str}
    (hsafe : tokenizer.RawSafe text) {hits : List RawHit}
    (h : tokenizer.rawHits cls text = .ok hits) : ∀ hit ∈ hits, tokenizer.controlHit hit = false := by
  have hwf := Tokenizer.fromGguf_wellFormed hfile
  have hbounded := fromGguf_bounded hfile
  unfold RawSafe at hsafe
  unfold rawHits at h
  cases hmodel : tokenizer.model with
  | LlamaSpm =>
    rw [hmodel] at hsafe h
    dsimp only at hsafe h
    obtain ⟨normalized, hnormalized, h⟩ := Outcome.bind_eq_ok.mp h
    obtain ⟨hspelled, hfallback⟩ := hsafe normalized hnormalized
    have hwithin : ∀ hit ∈ hits, tokenizer.Within normalized hit := by
      split at h
      · exact greedyHits_within hbounded h
      · obtain ⟨symbols, hsymbols, h⟩ := Outcome.bind_eq_ok.mp h
        have hranked := rankedHits_within hbounded
          (fun s hs => (mergeSymbols_makes hsymbols s hs).1) h
        rwa [List.nil_append, mergeSymbolsFuel_flatten hsymbols, flatten_singletons] at hranked
    exact fun hit hhit => (hwithin hit hhit).controlHit hwf hspelled hfallback
  | Gpt2Bpe =>
    rw [hmodel] at hsafe h
    obtain ⟨huser, hmade⟩ := hsafe
    exact fun hit hhit => (bpeHitsFrom_within (List.nil_append text).symm byteLen_nil.symm h hit
      hhit).controlHit hwf huser hmade

theorem Resolves.controlFree {hits : List RawHit} {ids : List TokenId}
    (h : tokenizer.Resolves hits ids) (hfree : ∀ hit ∈ hits, tokenizer.controlHit hit = false) :
    ∀ id ∈ ids, tokenizer.isControl id = false := by
  induction h with
  | nil => exact fun id hid => absurd hid List.not_mem_nil
  | @cons hit id hits ids hid _ ih =>
    obtain ⟨hhit, hlater⟩ := List.forall_mem_cons.mp hfree
    have hsame : tokenizer.controlHit hit = tokenizer.isControl id := by
      unfold Tokenizer.controlHit
      rw [hid]
      rfl
    exact List.forall_mem_cons.mpr ⟨hsame ▸ hhit, ih hlater⟩

/-- **When raw text stays free of control ids**: where no control token that a raw path can
reach is spelled in the text, and no character falls back on one. -/
theorem encode_controlFree (cls : CharClass) {file : Gguf.GgufFile} {tokenizer : Tokenizer}
    (hfile : Tokenizer.fromGguf file = .ok tokenizer) {text : Str} (hsafe : tokenizer.RawSafe text)
    {ids : List TokenId} (h : tokenizer.encode cls text false false = .ok ids) :
    ∀ id ∈ ids, tokenizer.isControl id = false := by
  obtain ⟨body, hbody, h⟩ := Outcome.bind_eq_ok.mp h
  simp only [Bool.false_and, Bool.false_eq_true, if_false, List.nil_append, List.append_nil] at h
  obtain rfl := Outcome.ok.inj h
  obtain ⟨hits, hhits, hresolves⟩ := encodeBody_resolves hbody
  exact hresolves.controlFree (hsafe.rawHits_controlFree hfile hhits)

/-- The text `a<` has a character that is spelled in no token, and no control token. -/
theorem encode_controlFree_unknown :
    ∃ tokenizer, Tokenizer.fromGguf endOfSequenceFile = .ok tokenizer ∧
      tokenizer.encode asciiClass ['a', '<'] false false = .ok [3, 0] ∧
      ∀ id ∈ [3, 0], tokenizer.isControl id = false := by
  have hrun : (Tokenizer.fromGguf endOfSequenceFile >>= fun tokenizer =>
      (.ok (decide (tokenizer.model = .LlamaSpm ∧
        tokenizer.encode asciiClass ['a', '<'] false false = .ok [3, 0] ∧
        tokenizer.normalizeSpmText ['a', '<'] false = .ok [spmSpace, 'a', '<'] ∧
        tokenizer.SpellsNone (fun _ => True) [spmSpace, 'a', '<'] ∧
        tokenizer.FallbackFree [spmSpace, 'a', '<'])) : EngineResult _)) = .ok true := by
    decide +kernel
  obtain ⟨tokenizer, hfile, hrun⟩ := Outcome.bind_eq_ok.mp hrun
  obtain ⟨hmodel, hencode, hnormalized, hspelled, hfallback⟩ :=
    of_decide_eq_true (Outcome.ok.inj hrun)
  have hsafe : tokenizer.RawSafe ['a', '<'] := by
    unfold RawSafe
    rw [hmodel]
    intro normalized h
    obtain rfl := Outcome.ok.inj (hnormalized.symm.trans h)
    exact ⟨hspelled, hfallback⟩
  exact ⟨tokenizer, hfile, hencode, encode_controlFree asciiClass hfile hsafe hencode⟩

/-- The text `a</s>` is not: its second id is that of the control token. -/
theorem encode_injected : ¬∀ (cls : CharClass) (file : Gguf.GgufFile) (tokenizer : Tokenizer)
    (text : Str) (ids : List TokenId), Tokenizer.fromGguf file = .ok tokenizer →
      tokenizer.encode cls text false false = .ok ids →
      ∀ id ∈ ids, tokenizer.isControl id = false := by
  intro hall
  have hrun : (Tokenizer.fromGguf endOfSequenceFile >>= fun tokenizer =>
      (.ok (tokenizer.encode asciiClass "a</s>".toList false false, tokenizer.isControl 2) :
        EngineResult _)) = .ok (.ok [3, 2], true) := by
    decide +kernel
  obtain ⟨tokenizer, hfile, hrun⟩ := Outcome.bind_eq_ok.mp hrun
  obtain ⟨hencode, hcontrol⟩ := Prod.mk.inj (Outcome.ok.inj hrun)
  have hfree := hall asciiClass endOfSequenceFile tokenizer _ _ hfile hencode 2 (by simp)
  rw [hcontrol] at hfree
  exact absurd hfree (by decide)

end Tokenizer

end CamelidEnterprise

import CamelidEnterprise.Engine.ControlTokens
import CamelidEnterprise.Engine.DecodedText
import CamelidEnterprise.Engine.Merging
import CamelidEnterprise.Engine.PretokenizerRegex

/-!
# Camelid Enterprise — encoding is total and in range

What every scan of `encode` needs to end: it stands at a character boundary (`before`
has been read, `rest` is left), and each turn takes a front part of what is left that is
not empty. Every id that is pushed was looked up, or is a special id that construction
has validated.

* `encode_total` — no tokenizer that construction accepts makes `encode` panic or run
  forever, and the ids it returns are those of the vocabulary.
-/

namespace CamelidEnterprise

open Foundation Foundation.Text

namespace Tokenizer

-- ---------------------------------------------------------------------------
-- Front parts
-- ---------------------------------------------------------------------------

/-- The text has a front part of `len` bytes that is not empty. -/
def HasFront (rest : Str) (len : Nat) : Prop :=
  ∃ front after, front ≠ [] ∧ rest = front ++ after ∧ byteLen front = len

theorem HasFront.pos {rest : Str} {len : Nat} (h : HasFront rest len) : 0 < len := by
  obtain ⟨front, -, hne, -, rfl⟩ := h
  exact Nat.pos_of_ne_zero fun hzero => hne (byteLen_eq_zero.mp hzero)

theorem hasFront_char (ch : Char) (rest : Str) : HasFront (ch :: rest) ch.utf8Size :=
  ⟨[ch], rest, List.cons_ne_nil _ _, rfl, by simp⟩

/-- A text that is left is its own front part. -/
theorem hasFront_self {rest : Str} (hne : rest ≠ []) : HasFront rest (byteLen rest) :=
  ⟨rest, [], hne, (List.append_nil rest).symm, rfl⟩

theorem charIndices_append {rest : Str} {base idx : Nat} (h : idx ∈ charIndices rest base) :
    ∃ front after, rest = front ++ after ∧ idx = base + byteLen front := by
  induction rest generalizing base with
  | nil => cases h
  | cons ch rest ih =>
    rcases List.mem_cons.mp h with rfl | h
    · exact ⟨[], ch :: rest, rfl, rfl⟩
    · obtain ⟨front, after, rfl, rfl⟩ := ih h
      exact ⟨ch :: front, after, rfl, by rw [byteLen_cons, Nat.add_assoc]⟩

/-- The ends the greedy search tries all lie after a front part. -/
theorem greedyEnds_hasFront (before : Str) {rest : Str} (hne : rest ≠ []) {byteEnd : Nat}
    (h : byteEnd ∈ (charIndices rest (byteLen before)).drop 1 ++ [byteLen (before ++ rest)]) :
    ∃ len, byteEnd = byteLen before + len ∧ HasFront rest len := by
  obtain ⟨ch, tail, rfl⟩ := List.exists_cons_of_ne_nil hne
  rcases List.mem_append.mp h with h | h
  · obtain ⟨front, after, rfl, rfl⟩ := charIndices_append h
    refine ⟨byteLen (ch :: front), by rw [byteLen_cons, Nat.add_assoc], ?_⟩
    exact ⟨ch :: front, after, List.cons_ne_nil _ _, rfl, rfl⟩
  · refine ⟨byteLen (ch :: tail), ?_, hasFront_self hne⟩
    rw [List.mem_singleton.mp h, byteLen_append]

/-- A loop that has taken a front part stands at a character boundary again. -/
theorem HasFront.step {rest : Str} {len fuel : Nat} (h : HasFront rest len) (before : Str)
    (hfuel : byteLen rest < fuel + 1) :
    ∃ front after, before ++ rest = (before ++ front) ++ after ∧
      byteLen before + len = byteLen (before ++ front) ∧ byteLen after < fuel := by
  have hpos := h.pos
  obtain ⟨front, after, -, rfl, rfl⟩ := h
  rw [byteLen_append] at hfuel
  exact ⟨front, after, by rw [List.append_assoc], by rw [byteLen_append], by omega⟩

/-- A loop over a text ends when each turn takes a front part of what is left. -/
theorem scan_gives {α : Type} {post : α → Prop} (scan : Str → Nat → Nat → EngineResult α)
    (hturn : ∀ before rest fuel,
      (∀ len, HasFront rest len → (scan (before ++ rest) fuel (byteLen before + len)).Gives post) →
      (scan (before ++ rest) (fuel + 1) (byteLen before)).Gives post)
    (before rest : Str) {fuel : Nat} (hfuel : byteLen rest < fuel) :
    (scan (before ++ rest) fuel (byteLen before)).Gives post := by
  induction fuel generalizing before rest with
  | zero => exact absurd hfuel (Nat.not_lt_zero _)
  | succ fuel ih =>
    refine hturn before rest fuel fun len hfront => ?_
    obtain ⟨front, after, htext, hpos, hlt⟩ := hfront.step before hfuel
    rw [htext, hpos]
    exact ih (before ++ front) after hlt

/-- A loop that is not at the end has text left. -/
theorem rest_ne_nil {before rest : Str} (h : byteLen before < byteLen (before ++ rest)) :
    rest ≠ [] := by
  rintro rfl
  rw [List.append_nil] at h
  exact Nat.lt_irrefl _ h

-- ---------------------------------------------------------------------------
-- Ids in range
-- ---------------------------------------------------------------------------

variable {tokenizer : Tokenizer}

/-- Ids of the vocabulary. -/
def InRange (tokenizer : Tokenizer) (ids : List TokenId) : Prop :=
  ∀ id ∈ ids, id < tokenizer.tokens.length

theorem InRange.nil : tokenizer.InRange [] := fun _ h => absurd h List.not_mem_nil

theorem InRange.cons {id : TokenId} {ids : List TokenId} (hid : id < tokenizer.tokens.length)
    (hids : tokenizer.InRange ids) : tokenizer.InRange (id :: ids) :=
  List.forall_mem_cons.mpr ⟨hid, hids⟩

theorem InRange.append {ids more : List TokenId} (hids : tokenizer.InRange ids)
    (hmore : tokenizer.InRange more) : tokenizer.InRange (ids ++ more) :=
  List.forall_mem_append.mpr ⟨hids, hmore⟩

theorem InRange.toList {id : Option TokenId} (h : ∀ e, id = some e → e < tokenizer.tokens.length) :
    tokenizer.InRange id.toList := by
  intro e he
  exact h e (Option.mem_toList.mp he)

/-- What encoding relies on: looked-up ids are of the vocabulary, so are the special ones
it emits, and every token can be looked up by its text. -/
structure Bounded (tokenizer : Tokenizer) : Prop where
  text : ∀ text id, tokenizer.tokenToId.lookup text = some id → id < tokenizer.tokens.length
  byte : ∀ byte id, tokenizer.byteTokenToId.lookup byte = some id → id < tokenizer.tokens.length
  found : ∀ token ∈ tokenizer.tokens, (tokenizer.tokenToId.lookup token.text).isSome
  bos : ∀ id, tokenizer.special.bos = some id → id < tokenizer.tokens.length
  eos : ∀ id, tokenizer.special.eos = some id → id < tokenizer.tokens.length
  unk : ∀ id, tokenizer.special.unk = some id → id < tokenizer.tokens.length

theorem fromGguf_bounded {file : Gguf.GgufFile} (hfile : Tokenizer.fromGguf file = .ok tokenizer) :
    tokenizer.Bounded := by
  have hindexed := (Tokenizer.fromGguf_wellFormed hfile).indexed
  obtain ⟨_, _, _, _, _, _, _, vocab, -, -, -, -, -, -, -, hvalid, rfl⟩ := fromGguf_steps hfile
  obtain ⟨⟨⟩, hbos, hvalid⟩ := Outcome.bind_eq_ok.mp hvalid
  obtain ⟨⟨⟩, heos, hvalid⟩ := Outcome.bind_eq_ok.mp hvalid
  obtain ⟨⟨⟩, hunk, -⟩ := Outcome.bind_eq_ok.mp hvalid
  constructor
  case text =>
    intro text id hid
    obtain ⟨token, htoken, -⟩ := hindexed.texts text id hid
    exact (List.getElem?_eq_some_iff.mp htoken).1
  case byte =>
    intro byte id hid
    obtain ⟨token, htoken, -⟩ := hindexed.bytes byte id hid
    exact (List.getElem?_eq_some_iff.mp htoken).1
  case found =>
    intro token htoken
    obtain ⟨i, hi⟩ := List.mem_iff_getElem?.mp htoken
    obtain ⟨id, hid, -⟩ := hindexed.latest i token hi
    exact Option.isSome_iff_exists.mpr ⟨id, hid⟩
  case bos => exact fun id hid => validateTokenId_eq_ok hbos hid
  case eos => exact fun id hid => validateTokenId_eq_ok heos hid
  case unk => exact fun id hid => validateTokenId_eq_ok hunk hid

/-- The score of a looked-up id can be read. -/
theorem Bounded.token (h : tokenizer.Bounded) {text : Str} {id : TokenId}
    (hid : tokenizer.tokenToId.lookup text = some id) :
    ∃ token, tokenizer.tokens[id]? = some token :=
  ⟨_, List.getElem?_eq_getElem (h.text text id hid)⟩

-- ---------------------------------------------------------------------------
-- The greedy match and the byte tokens
-- ---------------------------------------------------------------------------

theorem encodeUnknownSymbolBytes_gives (h : tokenizer.Bounded) (bytes : List UInt8) :
    (tokenizer.encodeUnknownSymbolBytes bytes).Gives tokenizer.InRange := by
  induction bytes with
  | nil => exact InRange.nil
  | cons byte bytes ih =>
    rw [encodeUnknownSymbolBytes]
    have hrange : ∀ id, (tokenizer.byteTokenToId.lookup byte).or tokenizer.special.unk = some id →
        id < tokenizer.tokens.length := by
      intro id hid
      rcases Option.or_eq_some_iff.mp hid with hbyte | ⟨-, hunk⟩
      · exact h.byte byte id hbyte
      · exact h.unk id hunk
    exact .bind (Outcome.gives_okOr hrange) fun id hid => .bind ih fun ids hids => .cons hid hids

/-- A best candidate of the greedy search: a front part of what is left, with its id. -/
def GoodMatch (tokenizer : Tokenizer) (rest : Str) (best : Option (Nat × TokenId × UInt32)) : Prop :=
  ∀ len id score, best = some (len, id, score) → ∃ front after, front ≠ [] ∧
    rest = front ++ after ∧ byteLen front = len ∧ tokenizer.tokenToId.lookup front = some id

theorem bestGreedy_ok (h : tokenizer.Bounded) (before rest : Str) {ends : List Nat}
    {best : Option (Nat × TokenId × UInt32)}
    (hends : ∀ byteEnd ∈ ends, ∃ len, byteEnd = byteLen before + len ∧ HasFront rest len)
    (hbest : tokenizer.GoodMatch rest best) :
    ∃ result, tokenizer.bestGreedy (before ++ rest) (byteLen before) ends best = .ok result ∧
      tokenizer.GoodMatch rest result := by
  induction ends generalizing best with
  | nil => exact ⟨best, rfl, hbest⟩
  | cons byteEnd ends ih =>
    obtain ⟨⟨len, rfl, front, after, hne, hrest, hlen⟩, hlater⟩ := List.forall_mem_cons.mp hends
    have hslice : slice (before ++ rest) (byteLen before) (byteLen before + len) = some front :=
      slice_eq_some.mpr ⟨before, after, by rw [hrest, List.append_assoc], rfl, by rw [hlen]⟩
    rw [bestGreedy, hslice, Outcome.orPanic, Outcome.ok_bind, Nat.add_sub_cancel_left]
    split
    · exact ih hlater hbest
    split
    · exact ih hlater hbest
    rename_i id hid
    obtain ⟨token, htoken⟩ := h.token hid
    -- a candidate that takes the lead
    have hnew : tokenizer.GoodMatch rest (some (len, id, token.score)) := by
      intro len' id' score heq
      obtain ⟨rfl, htail⟩ := Prod.mk.inj (Option.some.inj heq)
      obtain ⟨rfl, -⟩ := Prod.mk.inj htail
      exact ⟨front, after, hne, hrest, hlen, hid⟩
    rw [htoken, Outcome.orPanic, Outcome.ok_bind]
    split
    · dsimp only
      split
      · exact ih hlater hbest
      · exact ih hlater hnew
    · exact ih hlater hnew

/-- The search of one turn of the greedy match. -/
theorem bestGreedy_turn (h : tokenizer.Bounded) (before : Str) {rest : Str} (hne : rest ≠ []) :
    ∃ best, tokenizer.bestGreedy (before ++ rest) (byteLen before)
        ((charIndices rest (byteLen before)).drop 1 ++ [byteLen (before ++ rest)]) none = .ok best ∧
      tokenizer.GoodMatch rest best := by
  refine bestGreedy_ok h before rest (fun _ => greedyEnds_hasFront before hne) ?_
  intro len id score hnone
  cases hnone

theorem encodePieceGreedyFrom_gives (h : tokenizer.Bounded) (before rest : Str) {fuel : Nat}
    (hfuel : byteLen rest < fuel) :
    (tokenizer.encodePieceGreedyFrom (before ++ rest) fuel (byteLen before)).Gives
      tokenizer.InRange := by
  refine scan_gives tokenizer.encodePieceGreedyFrom (fun before rest fuel hnext => ?_) before rest hfuel
  rw [encodePieceGreedyFrom]
  split
  · rename_i hmore
    have hne := rest_ne_nil hmore
    rw [sliceFrom_append, Outcome.orPanic, Outcome.ok_bind]
    obtain ⟨best, hsearch, hbest⟩ := bestGreedy_turn h before hne
    dsimp only
    rw [hsearch, Outcome.ok_bind]
    rcases best with _ | ⟨len, id, score⟩
    · obtain ⟨ch, tail, rfl⟩ := List.exists_cons_of_ne_nil hne
      dsimp only
      rw [List.head?_cons, Outcome.okOr_some, Outcome.ok_bind]
      exact .bind (encodeUnknownSymbolBytes_gives h _) fun ids hids =>
        .bind (hnext _ (hasFront_char ch tail)) fun later hlater => hids.append hlater
    · obtain ⟨front, after, hfront, hrest, hlen, hid⟩ := hbest len id score rfl
      exact .bind (hnext len ⟨front, after, hfront, hrest, hlen⟩) fun later hlater =>
        .cons (h.text front id hid) hlater
  · exact InRange.nil

theorem encodePieceGreedy_gives (h : tokenizer.Bounded) (piece : Str) :
    (tokenizer.encodePieceGreedy piece).Gives tokenizer.InRange :=
  encodePieceGreedyFrom_gives h [] piece (Nat.lt_succ_self _)

-- ---------------------------------------------------------------------------
-- Merging by score
-- ---------------------------------------------------------------------------

/-- A best pair has two symbols of the list. -/
def PairBelow (bound : Nat) (best : Option (UInt32 × Nat)) : Prop :=
  ∀ score idx, best = some (score, idx) → idx + 1 < bound

theorem bestSpmPair_gives (h : tokenizer.Bounded) (bound : Nat) {symbols : List Str} {idx : Nat}
    {best : Option (UInt32 × Nat)} (hidx : idx + symbols.length ≤ bound)
    (hbest : PairBelow bound best) :
    (tokenizer.bestSpmPair symbols idx best).Gives (PairBelow bound) := by
  induction symbols generalizing idx best with
  | nil => exact hbest
  | cons left symbols ih =>
    cases symbols with
    | nil => exact hbest
    | cons right rest =>
      have hright : idx + 1 + (right :: rest).length ≤ bound := by
        simp only [List.length_cons] at hidx ⊢
        omega
      rw [bestSpmPair]
      split
      · exact ih hright hbest
      split
      · exact ih hright hbest
      rename_i id hid
      obtain ⟨token, htoken⟩ := h.token hid
      have hnew : PairBelow bound (some (token.score, idx)) := by
        intro score idx' heq
        obtain ⟨-, rfl⟩ := Prod.mk.inj (Option.some.inj heq)
        rw [List.length_cons] at hright
        omega
      rw [htoken, Outcome.orPanic, Outcome.ok_bind]
      split
      · split
        · exact ih hright hbest
        · exact ih hright hnew
      · exact ih hright hnew

theorem joinAt_length {idx : Nat} {symbols : List Str} (h : idx + 1 < symbols.length) :
    (joinAt idx symbols).length + 1 = symbols.length := by
  induction symbols generalizing idx with
  | nil => exact absurd h (Nat.not_lt_zero _)
  | cons a rest ih =>
    cases idx with
    | zero =>
      cases rest with
      | nil => exact absurd h (Nat.lt_irrefl _)
      | cons b rest => rfl
    | succ idx => rw [joinAt, List.length_cons, List.length_cons, ih (Nat.lt_of_succ_lt_succ h)]

/-- Each turn of the loop leaves one symbol less. -/
theorem mergeSpmFuel_gives (h : tokenizer.Bounded) {fuel : Nat} {symbols : List Str}
    (hfuel : symbols.length < fuel) :
    (tokenizer.mergeSpmFuel fuel symbols).Gives fun _ => True := by
  induction fuel generalizing symbols with
  | zero => exact absurd hfuel (Nat.not_lt_zero _)
  | succ fuel ih =>
    rw [mergeSpmFuel]
    refine .bind (bestSpmPair_gives h symbols.length (by rw [Nat.zero_add]) ?_) ?_
    · intro score idx hnone
      cases hnone
    · intro best hbest
      rcases best with _ | ⟨score, idx⟩
      · trivial
      · have hlen := joinAt_length (hbest score idx rfl)
        exact ih (by omega)

theorem resolveSpmSymbols_gives (h : tokenizer.Bounded) (byScore : Bool) (symbols : List Str)
    (unresolved : Str) :
    (tokenizer.resolveSpmSymbols byScore symbols unresolved).Gives tokenizer.InRange := by
  have hwaiting : ∀ unresolved : Str,
      (if unresolved.isEmpty then .ok [] else tokenizer.encodePieceGreedy unresolved :
        EngineResult (List TokenId)).Gives tokenizer.InRange := by
    intro unresolved
    split
    · exact InRange.nil
    · exact encodePieceGreedy_gives h unresolved
  induction symbols generalizing unresolved with
  | nil => exact hwaiting unresolved
  | cons symbol symbols ih =>
    rw [resolveSpmSymbols]
    split
    · exact ih _
    split
    · rename_i id hid
      exact .bind (hwaiting unresolved) fun ids hids => .bind (ih []) fun later hlater =>
        hids.append (.cons (h.text symbol id hid) hlater)
    · exact ih _

theorem encodeSpmSegment_gives (h : tokenizer.Bounded) (segment : Str) :
    (tokenizer.encodeSpmSegment segment).Gives tokenizer.InRange := by
  unfold encodeSpmSegment
  split
  · exact InRange.nil
  split
  · refine .bind (mergeSpmFuel_gives h ?_) fun symbols _ => resolveSpmSymbols_gives h true symbols []
    rw [List.length_map]
    exact Nat.lt_succ_self _
  · obtain ⟨symbols, hsymbols, -⟩ := tokenizer.bpeRegistry.mergeSymbols_ok (segment.map fun ch => [ch])
    rw [hsymbols, Outcome.ok_bind]
    exact resolveSpmSymbols_gives h false symbols []

-- ---------------------------------------------------------------------------
-- Partitioning at special tokens
-- ---------------------------------------------------------------------------

/-- A special token at a place is a front part of what is left there. -/
theorem longestControlTokenAt_front {includeControl : Bool} {before rest special : Str} {len : Nat}
    (h : tokenizer.longestControlTokenAt (before ++ rest) (byteLen before) includeControl =
      some (special, len)) :
    HasFront rest len ∧ ∃ token ∈ tokenizer.tokens, token.text = special := by
  rw [longestControlTokenAt_append] at h
  obtain ⟨token, hlongest, hpair⟩ := Option.map_eq_some_iff.mp h
  obtain ⟨rfl, rfl⟩ := Prod.mk.inj hpair
  obtain ⟨hmem, hne, after, rfl⟩ := longestControlToken_spec hlongest
  exact ⟨⟨token.text, after, hne, rfl, rfl⟩, token, hmem, rfl⟩

/-- A special token that stands in a text has an id. -/
theorem longestControlTokenAt_id (h : tokenizer.Bounded) {includeControl : Bool}
    {before rest special : Str} {len : Nat}
    (hat : tokenizer.longestControlTokenAt (before ++ rest) (byteLen before) includeControl =
      some (special, len)) : ∃ id, tokenizer.tokenToId.lookup special = some id := by
  obtain ⟨-, token, hmem, rfl⟩ := longestControlTokenAt_front hat
  exact Option.isSome_iff_exists.mp (h.found token hmem)

/-- Where no special token stands at a place, the piece up to the next one is not empty. -/
theorem nextControlTokenStart_front {includeControl : Bool} (before : Str) {rest : Str}
    (hne : rest ≠ [])
    (h : tokenizer.longestControlTokenAt (before ++ rest) (byteLen before) includeControl = none) :
    ∃ next len, tokenizer.nextControlTokenStart (before ++ rest) (byteLen before) includeControl =
        .ok next ∧
      next.getD (byteLen (before ++ rest)) = byteLen before + len ∧ HasFront rest len := by
  unfold nextControlTokenStart
  rw [sliceFrom_append, Outcome.orPanic, Outcome.ok_bind]
  obtain ⟨ch, tail, rfl⟩ := List.exists_cons_of_ne_nil hne
  rw [charIndices, List.find?_cons, h, Option.isSome_none]
  dsimp only
  cases hfind : (charIndices tail (byteLen before + ch.utf8Size)).find? fun idx =>
      (tokenizer.longestControlTokenAt (before ++ ch :: tail) idx includeControl).isSome with
  | none =>
    exact ⟨none, byteLen (ch :: tail), rfl, byteLen_append before (ch :: tail), hasFront_self hne⟩
  | some idx =>
    obtain ⟨front, after, rfl, rfl⟩ := charIndices_append (List.mem_of_find?_eq_some hfind)
    refine ⟨_, byteLen (ch :: front), rfl, ?_, ch :: front, after, List.cons_ne_nil _ _, rfl, rfl⟩
    rw [Option.getD_some, byteLen_cons, Nat.add_assoc]

theorem slice_front (before : Str) {rest : Str} {len : Nat} (h : HasFront rest len) :
    ∃ piece, slice (before ++ rest) (byteLen before) (byteLen before + len) = some piece := by
  obtain ⟨front, after, -, rfl, rfl⟩ := h
  exact ⟨front, slice_eq_some.mpr ⟨before, after, by rw [List.append_assoc], rfl, rfl⟩⟩

theorem sliceFrom_front (before : Str) {rest : Str} {len : Nat} (h : HasFront rest len) :
    ∃ after, sliceFrom (before ++ rest) (byteLen before + len) = some after := by
  obtain ⟨front, after, -, rfl, rfl⟩ := h
  refine ⟨after, ?_⟩
  rw [← byteLen_append, ← List.append_assoc]
  exact sliceFrom_append _ after

-- ---------------------------------------------------------------------------
-- SentencePiece
-- ---------------------------------------------------------------------------

theorem addDummyFrom_gives (before rest : Str) {fuel : Nat} (hfuel : byteLen rest < fuel) :
    (tokenizer.addDummyFrom (before ++ rest) fuel (byteLen before)).Gives fun _ => True := by
  refine scan_gives tokenizer.addDummyFrom (fun before rest fuel hnext => ?_) before rest hfuel
  rw [addDummyFrom]
  split
  · rename_i hmore
    have hne := rest_ne_nil hmore
    split
    · rename_i special len hat
      obtain ⟨hfront, -⟩ := longestControlTokenAt_front hat
      obtain ⟨after, hafter⟩ := sliceFrom_front before hfront
      dsimp only
      rw [hafter, Outcome.orPanic, Outcome.ok_bind]
      refine .bind (hnext len hfront) fun later _ => ?_
      split
      · trivial
      · trivial
    · obtain ⟨ch, tail, rfl⟩ := List.exists_cons_of_ne_nil hne
      rw [expectChar_append, Outcome.ok_bind]
      exact .bind (hnext _ (hasFront_char ch tail)) fun later _ => trivial
  · trivial

theorem normalizeSpmText_gives (text : Str) (parseSpecial : Bool) :
    (tokenizer.normalizeSpmText text parseSpecial).Gives fun _ => True := by
  unfold normalizeSpmText
  split
  · trivial
  dsimp only
  generalize (if tokenizer.config.addSpacePrefix &&
      !(parseSpecial && (tokenizer.longestControlTokenAt text 0 true).isSome) then
    spmSpace :: text.map fun ch => if ch = ' ' then spmSpace else ch
    else text.map fun ch => if ch = ' ' then spmSpace else ch) = normalized
  split
  · trivial
  unfold addDummyPrefixAfterControlTokens
  split
  · trivial
  · exact addDummyFrom_gives [] normalized (Nat.lt_succ_self _)

theorem dummyAfterControl_gives (h : tokenizer.Bounded) {before rest : Str} {len : Nat}
    (hfront : HasFront rest len) (special : Str) :
    (tokenizer.dummyAfterControl (before ++ rest) special (byteLen before + len)).Gives
      tokenizer.InRange := by
  obtain ⟨after, hafter⟩ := sliceFrom_front before hfront
  unfold dummyAfterControl
  rw [hafter, Outcome.orPanic, Outcome.ok_bind]
  dsimp only
  split
  · exact InRange.toList fun id hid => h.text _ id hid
  · exact InRange.nil

/-- The next special token, where specials are parsed, and else the end of the piece. -/
theorem pieceEnd_front (before : Str) {rest : Str} (hne : rest ≠ []) (parseSpecial : Bool)
    (h : parseSpecial = true →
      tokenizer.longestControlTokenAt (before ++ rest) (byteLen before) true = none) :
    ∃ next len, (if parseSpecial then
          tokenizer.nextControlTokenStart (before ++ rest) (byteLen before) true
        else .ok none : EngineResult (Option Nat)) = .ok next ∧
      next.getD (byteLen (before ++ rest)) = byteLen before + len ∧ HasFront rest len := by
  cases parseSpecial with
  | true => exact nextControlTokenStart_front before hne (h rfl)
  | false => exact ⟨none, byteLen rest, rfl, byteLen_append before rest, hasFront_self hne⟩

theorem encodePieceFrom_gives (h : tokenizer.Bounded) (parseSpecial : Bool) (before rest : Str)
    {fuel : Nat} (hfuel : byteLen rest < fuel) :
    (tokenizer.encodePieceFrom (before ++ rest) parseSpecial fuel (byteLen before)).Gives
      tokenizer.InRange := by
  refine scan_gives (tokenizer.encodePieceFrom · parseSpecial) (fun before rest fuel hnext => ?_) before rest hfuel
  rw [encodePieceFrom]
  split
  · rename_i hmore
    have hne := rest_ne_nil hmore
    dsimp only
    split
    · -- a special token that has an id
      rename_i id special len htaken
      have hat : tokenizer.longestControlTokenAt (before ++ rest) (byteLen before) true =
          some (special, len) ∧ tokenizer.tokenToId.lookup special = some id := by
        cases parseSpecial with
        | false => cases htaken
        | true =>
          rw [if_pos rfl] at htaken
          obtain ⟨⟨special', len'⟩, hat, htaken⟩ := Option.bind_eq_some_iff.mp htaken
          obtain ⟨id', hid, htaken⟩ := Option.bind_eq_some_iff.mp htaken
          obtain ⟨rfl, hrest⟩ := Prod.mk.inj (Option.some.inj htaken)
          obtain ⟨rfl, rfl⟩ := Prod.mk.inj hrest
          exact ⟨hat, hid⟩
      have hfront := (longestControlTokenAt_front hat.1).1
      exact .bind (dummyAfterControl_gives h hfront special) fun dummy hdummy =>
        .bind (hnext len hfront) fun later hlater =>
          (hdummy.append hlater).cons (h.text special id hat.2)
    · -- no special token, for those of the vocabulary all have one
      rename_i htaken
      have hnone : parseSpecial = true →
          tokenizer.longestControlTokenAt (before ++ rest) (byteLen before) true = none := by
        rintro rfl
        rw [if_pos rfl] at htaken
        cases hat : tokenizer.longestControlTokenAt (before ++ rest) (byteLen before) true with
        | none => rfl
        | some found =>
          obtain ⟨special, len⟩ := found
          obtain ⟨id, hid⟩ := longestControlTokenAt_id h hat
          rw [hat] at htaken
          have hsome : (tokenizer.tokenToId.lookup special).bind (fun id =>
              some (id, special, len)) = none := htaken
          rw [hid] at hsome
          cases hsome
      obtain ⟨next, len, hends, hlen, hfront⟩ := pieceEnd_front before hne parseSpecial hnone
      obtain ⟨segment, hsegment⟩ := slice_front before hfront
      rw [hends, Outcome.ok_bind, hlen, hsegment, Outcome.orPanic, Outcome.ok_bind]
      refine .bind ?_ fun ids hids =>
        .bind (hnext len hfront) fun later hlater => InRange.append hids hlater
      split
      · exact encodePieceGreedy_gives h segment
      · exact encodeSpmSegment_gives h segment
  · exact InRange.nil

theorem encodePiece_gives (h : tokenizer.Bounded) (piece : Str) (parseSpecial : Bool) :
    (tokenizer.encodePiece piece parseSpecial).Gives tokenizer.InRange := by
  unfold encodePiece
  split
  · exact encodePieceGreedy_gives h piece
  · exact encodePieceFrom_gives h parseSpecial [] piece (Nat.lt_succ_self _)

-- ---------------------------------------------------------------------------
-- GPT-2/BPE
-- ---------------------------------------------------------------------------

theorem symbolIds_gives (h : tokenizer.Bounded) (symbols : List Str) :
    (tokenizer.symbolIds symbols).Gives tokenizer.InRange := by
  induction symbols with
  | nil => exact InRange.nil
  | cons symbol symbols ih =>
    exact .bind (Outcome.gives_okOr fun id hid => h.text symbol id hid) fun id hid =>
      .bind ih fun ids hids => .cons hid hids

theorem encodeBpeSegment_gives (h : tokenizer.Bounded) (segment : Str) :
    (tokenizer.encodeBpeSegment segment).Gives tokenizer.InRange := by
  unfold encodeBpeSegment
  split
  · exact InRange.nil
  · obtain ⟨symbols, hsymbols, -⟩ := tokenizer.bpeRegistry.mergeSymbols_ok
      ((Utf8.encode segment).map fun byte => [bpeByteToChar byte])
    rw [hsymbols, Outcome.ok_bind]
    exact symbolIds_gives h symbols

theorem encodeBpeSegments_gives (h : tokenizer.Bounded) (segments : List Str) :
    (tokenizer.encodeBpeSegments segments).Gives tokenizer.InRange := by
  induction segments with
  | nil => exact InRange.nil
  | cons segment segments ih =>
    exact .bind (encodeBpeSegment_gives h segment) fun ids hids =>
      .bind ih fun later hlater => hids.append hlater

theorem digitGroupMax_pos (pre : BpePreTokenizer) : 1 ≤ pre.digitGroupMax := by
  cases pre with
  | Llama3 => decide
  | Qwen2 => decide
  | Qwen35 => decide

theorem encodeBpeFrom_gives (h : tokenizer.Bounded) (cls : CharClass) (parseSpecial : Bool)
    (before rest : Str) {fuel : Nat} (hfuel : byteLen rest < fuel) :
    (tokenizer.encodeBpeFrom cls (before ++ rest) parseSpecial fuel (byteLen before)).Gives
      tokenizer.InRange := by
  refine scan_gives (tokenizer.encodeBpeFrom cls · parseSpecial) (fun before rest fuel hnext => ?_) before rest hfuel
  rw [encodeBpeFrom]
  split
  · rename_i hmore
    have hne := rest_ne_nil hmore
    split
    · rename_i id len hcontrol
      obtain ⟨⟨special, len'⟩, hat, hcontrol⟩ := Option.bind_eq_some_iff.mp hcontrol
      obtain ⟨id', hid, hcontrol⟩ := Option.bind_eq_some_iff.mp hcontrol
      obtain ⟨rfl, rfl⟩ := Prod.mk.inj (Option.some.inj hcontrol)
      exact .bind (hnext _ (longestControlTokenAt_front hat).1) fun later hlater =>
        .cons (h.text special _ hid) hlater
    · rename_i hcontrol
      have hnone : tokenizer.longestControlTokenAt (before ++ rest) (byteLen before) parseSpecial =
          none := by
        cases hat : tokenizer.longestControlTokenAt (before ++ rest) (byteLen before)
            parseSpecial with
        | none => rfl
        | some found =>
          obtain ⟨special, len⟩ := found
          obtain ⟨id, hid⟩ := longestControlTokenAt_id h hat
          rw [controlIdAt, hat] at hcontrol
          have hsome : (tokenizer.tokenToId.lookup special).bind (fun id => some (id, len)) =
              none := hcontrol
          rw [hid] at hsome
          cases hsome
      obtain ⟨next, len, hends, hlen, hfront⟩ := nextControlTokenStart_front before hne hnone
      obtain ⟨piece, hpiece⟩ := slice_front before hfront
      obtain ⟨segments, hsegments⟩ := @bpePretokenizeFrom_ok cls
        tokenizer.bpePreTokenizer.digitGroupMax tokenizer.bpePreTokenizer.foldMarks
        (digitGroupMax_pos _) [] piece _ (Nat.lt_succ_self _)
      have hcut : bpePretokenizeWith cls piece tokenizer.bpePreTokenizer.digitGroupMax
          tokenizer.bpePreTokenizer.foldMarks = .ok segments := hsegments
      rw [hends, Outcome.ok_bind, hlen]
      dsimp only
      rw [hpiece, Outcome.orPanic, Outcome.ok_bind, hcut,
        Outcome.ok_bind]
      exact .bind (encodeBpeSegments_gives h segments) fun ids hids =>
        .bind (hnext len hfront) fun later hlater => hids.append hlater
  · exact InRange.nil

-- ---------------------------------------------------------------------------
-- Both families
-- ---------------------------------------------------------------------------

theorem encodeBody_gives (h : tokenizer.Bounded) (cls : CharClass) (text : Str)
    (parseSpecial : Bool) :
    (tokenizer.encodeBody cls text parseSpecial).Gives tokenizer.InRange := by
  unfold encodeBody
  split
  · refine .bind (normalizeSpmText_gives text parseSpecial) fun normalized _ => ?_
    split
    · exact InRange.nil
    · exact encodePiece_gives h normalized parseSpecial
  · split
    · exact InRange.nil
    · exact encodeBpeFrom_gives h cls parseSpecial [] text (Nat.lt_succ_self _)

theorem encode_gives (cls : CharClass) {file : Gguf.GgufFile} {tokenizer : Tokenizer}
    (hfile : Tokenizer.fromGguf file = .ok tokenizer) (text : Str)
    (addSpecial parseSpecial : Bool) :
    (tokenizer.encode cls text addSpecial parseSpecial).Gives tokenizer.InRange := by
  have hbounded := fromGguf_bounded hfile
  refine .bind (encodeBody_gives hbounded cls text parseSpecial) fun ids hids => ?_
  refine InRange.append (InRange.append ?_ hids) ?_
  · split
    · exact .toList hbounded.bos
    · exact .nil
  · split
    · exact .toList hbounded.eos
    · exact .nil

/-- **Encoding is total and in range.** Whatever the text, the flags and the character
classes, `encode` by a tokenizer that construction accepted comes to an end without a
panic, with an error of its own or with ids of the vocabulary. -/
theorem encode_total (cls : CharClass) {file : Gguf.GgufFile} {tokenizer : Tokenizer}
    (hfile : Tokenizer.fromGguf file = .ok tokenizer) (text : Str)
    (addSpecial parseSpecial : Bool) :
    (tokenizer.encode cls text addSpecial parseSpecial).NoFault ∧
      ∀ ids, tokenizer.encode cls text addSpecial parseSpecial = .ok ids →
        ∀ id ∈ ids, id < tokenizer.tokens.length :=
  Outcome.gives_iff.mp (encode_gives cls hfile text addSpecial parseSpecial)

/-- A text that the control token `</s>` is spelled in. -/
theorem encode_total_control :
    ∃ tokenizer, Tokenizer.fromGguf endOfSequenceFile = .ok tokenizer ∧
      (tokenizer.encode asciiClass "a</s>".toList true true).NoFault := by
  have hrun : (Tokenizer.fromGguf endOfSequenceFile >>= fun tokenizer =>
      (.ok tokenizer.model : EngineResult TokenizerModel)) = .ok .LlamaSpm := by
    decide +kernel
  obtain ⟨tokenizer, hfile, -⟩ := Outcome.bind_eq_ok.mp hrun
  exact ⟨tokenizer, hfile, (encode_total asciiClass hfile "a</s>".toList true true).1⟩

end Tokenizer

end CamelidEnterprise

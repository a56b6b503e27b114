import CamelidEnterprise.Engine.Tokenizer

/-!
# Camelid Enterprise — the GPT-2/BPE pre-tokenizer

The hand-rolled equivalent of the split regex: `bpePretokenizeWith` cuts a text
into the segments that byte-level merging never crosses. All positions are byte
offsets, as in the source; an offset inside a character would be a panic.

The Unicode classes of a character are a parameter (`CharClass`): nothing here
depends on which characters are letters.
-/

namespace CamelidEnterprise

open Foundation Foundation.Text

/-- `char::is_alphabetic`, `is_numeric`, `is_whitespace` and the source's `is_mark`. -/
structure CharClass where
  isLetter : Char → Bool
  isNumber : Char → Bool
  isWhitespace : Char → Bool
  isMark : Char → Bool

namespace CharClass

/-- `is_letter_class` -/
def isLetterClass (cls : CharClass) (foldMarks : Bool) (ch : Char) : Bool :=
  cls.isLetter ch || (foldMarks && cls.isMark ch)

/-- `is_punctuation_for_bpe` -/
def isPunctuationForBpe (cls : CharClass) (foldMarks : Bool) (ch : Char) : Bool :=
  !cls.isWhitespace ch && !cls.isLetterClass foldMarks ch && !cls.isNumber ch

end CharClass

/-- `next_char`: the slice `text[byte_start..]` panics off a boundary. -/
def nextChar (text : Str) (byteStart : Nat) : EngineResult (Option Char) := do
  let rest ← Outcome.orPanic (sliceFrom text byteStart)
  .ok rest.head?

/-- `next_char(..).expect("..")` -/
def expectChar (text : Str) (byteStart : Nat) : EngineResult Char := do
  let ch ← nextChar text byteStart
  Outcome.orPanic ch

/-- `(next_idx < text.len()).then(|| next_char(text, next_idx))??` -/
def followingChar (text : Str) (nextIdx : Nat) : EngineResult (Option Char) :=
  if nextIdx < byteLen text then nextChar text nextIdx else .ok none

/-- The loop every scan of the source is: step over characters of a class, up to
a maximum number of them. A scan without a maximum has `text.length`, which no
run of characters of the text exceeds. -/
def scanWhile (text : Str) (keep : Char → Bool) : Nat → Nat → EngineResult Nat
  | 0, idx => .ok idx
  | count + 1, idx =>
    if idx < byteLen text then do
      let ch ← expectChar text idx
      if keep ch then scanWhile text keep count (idx + ch.utf8Size) else .ok idx
    else
      .ok idx

/-- `consume_letters` -/
def consumeLetters (cls : CharClass) (text : Str) (byteStart : Nat) (foldMarks : Bool) :
    EngineResult Nat :=
  scanWhile text (cls.isLetterClass foldMarks) text.length byteStart

/-- `consume_digits` -/
def consumeDigits (cls : CharClass) (text : Str) (byteStart maxDigits : Nat) : EngineResult Nat :=
  scanWhile text cls.isNumber maxDigits byteStart

/-- `consume_whitespace` -/
def consumeWhitespace (cls : CharClass) (text : Str) (byteStart : Nat) : EngineResult Nat :=
  scanWhile text cls.isWhitespace text.length byteStart

/-- `eq_ignore_ascii_case` -/
def eqIgnoreAsciiCase (a b : Str) : Bool := a.map Char.toLower == b.map Char.toLower

/-- The contraction suffixes, in the order they are tried. -/
def contractions : List Str :=
  ["'s".toList, "'t".toList, "'re".toList, "'ve".toList, "'m".toList, "'ll".toList, "'d".toList]

/-- `consume_contraction` -/
def consumeContraction (text : Str) (byteStart : Nat) : EngineResult (Option Nat) := do
  let rest ← Outcome.orPanic (sliceFrom text byteStart)
  .ok <| contractions.findSome? fun suffix =>
    match sliceTo rest (byteLen suffix) with
    | some candidate =>
      if eqIgnoreAsciiCase candidate suffix then some (byteStart + byteLen suffix) else none
    | none => none

/-- `consume_optional_prefix_letters` -/
def consumeOptionalPrefixLetters (cls : CharClass) (text : Str) (byteStart : Nat)
    (foldMarks : Bool) : EngineResult (Option Nat) := do
  let ch ← expectChar text byteStart
  if cls.isLetterClass foldMarks ch then
    let stop ← consumeLetters cls text byteStart foldMarks
    .ok (some stop)
  else if ch = '\r' || ch = '\n' || cls.isNumber ch then
    .ok none
  else
    let nextIdx := byteStart + ch.utf8Size
    match ← followingChar text nextIdx with
    | none => .ok none
    | some next =>
      if cls.isLetterClass foldMarks next then
        let stop ← consumeLetters cls text nextIdx foldMarks
        .ok (some stop)
      else
        .ok none

/-- Where the punctuation branch starts, when it applies. -/
def punctuationStart (cls : CharClass) (text : Str) (byteStart : Nat) (foldMarks : Bool) :
    EngineResult (Option Nat) := do
  let ch ← expectChar text byteStart
  if ch = ' ' then
    let nextIdx := byteStart + ch.utf8Size
    match ← followingChar text nextIdx with
    | none => .ok none
    | some next =>
      .ok (if cls.isPunctuationForBpe foldMarks next then some nextIdx else none)
  else
    .ok (if cls.isPunctuationForBpe foldMarks ch then some byteStart else none)

/-- `consume_optional_space_punctuation` -/
def consumeOptionalSpacePunctuation (cls : CharClass) (text : Str) (byteStart : Nat)
    (foldMarks : Bool) : EngineResult (Option Nat) := do
  match ← punctuationStart cls text byteStart foldMarks with
  | none => .ok none
  | some start =>
    let idx ← scanWhile text (cls.isPunctuationForBpe foldMarks) text.length start
    let stop ← scanWhile text (fun ch => ch = '\n' || ch = '\r') text.length idx
    .ok (some stop)

/-- The whitespace scan that remembers where the last newline ended. -/
def scanNewlines (cls : CharClass) (text : Str) :
    Nat → Nat → Option Nat → EngineResult (Option Nat)
  | 0, _, lastNewlineEnd => .ok lastNewlineEnd
  | count + 1, idx, lastNewlineEnd =>
    if idx < byteLen text then do
      let ch ← expectChar text idx
      if cls.isWhitespace ch then
        let idx := idx + ch.utf8Size
        scanNewlines cls text count idx
          (if ch = '\n' || ch = '\r' then some idx else lastNewlineEnd)
      else
        .ok lastNewlineEnd
    else
      .ok lastNewlineEnd

/-- `consume_whitespace_with_newline` -/
def consumeWhitespaceWithNewline (cls : CharClass) (text : Str) (byteStart : Nat) :
    EngineResult (Option Nat) := do
  let ch ← expectChar text byteStart
  if cls.isWhitespace ch then
    scanNewlines cls text text.length byteStart none
  else
    .ok none

/-- `consume_whitespace_before_nonspace` -/
def consumeWhitespaceBeforeNonspace (cls : CharClass) (text : Str) (byteStart : Nat) :
    EngineResult Nat := do
  let whitespaceEnd ← consumeWhitespace cls text byteStart
  if whitespaceEnd = byteLen text then
    .ok whitespaceEnd
  else
    let chars ← Outcome.orPanic (slice text byteStart whitespaceEnd)
    -- the offset of the run's last character
    if chars.length > 1 then .ok (byteStart + byteLen chars.dropLast) else .ok whitespaceEnd

/-- `next_llama_bpe_segment_end` -/
def nextLlamaBpeSegmentEnd (cls : CharClass) (text : Str) (byteStart digitGroupMax : Nat)
    (foldMarks : Bool) : EngineResult Nat := do
  match ← consumeContraction text byteStart with
  | some stop => .ok stop
  | none =>
    match ← consumeOptionalPrefixLetters cls text byteStart foldMarks with
    | some stop => .ok stop
    | none =>
      let ch ← expectChar text byteStart
      if cls.isNumber ch then
        consumeDigits cls text byteStart digitGroupMax
      else
        match ← consumeOptionalSpacePunctuation cls text byteStart foldMarks with
        | some stop => .ok stop
        | none =>
          match ← consumeWhitespaceWithNewline cls text byteStart with
          | some stop => .ok stop
          | none =>
            if cls.isWhitespace ch then
              consumeWhitespaceBeforeNonspace cls text byteStart
            else
              .ok (byteStart + ch.utf8Size)

/-- The `while byte_start < text.len()` loop of `bpe_pretokenize_with`. -/
def bpePretokenizeFrom (cls : CharClass) (text : Str) (digitGroupMax : Nat) (foldMarks : Bool) :
    Nat → Nat → EngineResult (List Str)
  | 0, _ => .fault .fuel
  | fuel + 1, byteStart =>
    if byteStart < byteLen text then do
      let byteEnd ← nextLlamaBpeSegmentEnd cls text byteStart digitGroupMax foldMarks
      let segment ← Outcome.orPanic (slice text byteStart byteEnd)
      let segments ← bpePretokenizeFrom cls text digitGroupMax foldMarks fuel byteEnd
      .ok (segment :: segments)
    else
      .ok []

/-- `bpe_pretokenize_with` -/
def bpePretokenizeWith (cls : CharClass) (text : Str) (digitGroupMax : Nat) (foldMarks : Bool) :
    EngineResult (List Str) :=
  bpePretokenizeFrom cls text digitGroupMax foldMarks (byteLen text + 1) 0

/-! ## The segments are the text -/

theorem bpePretokenizeFrom_flatten {cls : CharClass} {text : Str} {digitGroupMax : Nat}
    {foldMarks : Bool} {fuel byteStart : Nat} {before rest : Str} {segments : List Str}
    (htext : text = before ++ rest) (hstart : byteStart = byteLen before)
    (h : bpePretokenizeFrom cls text digitGroupMax foldMarks fuel byteStart = .ok segments) :
    segments.flatten = rest := by
  induction fuel generalizing byteStart before rest segments with
  | zero => cases h
  | succ fuel ih =>
    rw [bpePretokenizeFrom] at h
    split at h
    · obtain ⟨byteEnd, -, h⟩ := Outcome.bind_eq_ok.mp h
      obtain ⟨segment, hslice, h⟩ := Outcome.bind_eq_ok.mp h
      obtain ⟨later, hlater, h⟩ := Outcome.bind_eq_ok.mp h
      obtain rfl := Outcome.ok.inj h
      -- the slice starts where this pass did, so it is the front of `rest`
      obtain ⟨front, after, hcut, hfront, hend⟩ :=
        slice_eq_some.mp (Outcome.orPanic_eq_ok.mp hslice)
      have hsame : front = before ∧ segment ++ after = rest :=
        append_inj_of_byteLen (by rw [← List.append_assoc, ← hcut, htext]) (hfront.trans hstart)
      obtain ⟨rfl, rfl⟩ := hsame
      have htext' : text = (front ++ segment) ++ after := by rw [htext, List.append_assoc]
      have hstart' : byteEnd = byteLen (front ++ segment) := by rw [byteLen_append, hend]
      rw [List.flatten_cons, ih htext' hstart' hlater]
    · rename_i hdone
      obtain rfl := Outcome.ok.inj h
      have hlen : byteLen text = byteLen before + byteLen rest := by
        rw [htext, byteLen_append]
      exact (byteLen_eq_zero.mp (by omega)).symm

/-- Pre-tokenizing loses and invents nothing: the segments, in order, are the text. -/
theorem bpePretokenizeWith_flatten {cls : CharClass} {text : Str} {digitGroupMax : Nat}
    {foldMarks : Bool} {segments : List Str}
    (h : bpePretokenizeWith cls text digitGroupMax foldMarks = .ok segments) :
    segments.flatten = text :=
  bpePretokenizeFrom_flatten (List.nil_append text).symm byteLen_nil.symm h

end CamelidEnterprise

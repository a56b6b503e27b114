import CamelidEnterprise.Foundation.Regex
import CamelidEnterprise.Engine.Pretokenizer

/-!
# Camelid Enterprise — the pre-tokenizer and its pattern

The scanner of the pre-tokenizer against the split pattern it stands for, matched
leftmost-first.

`segmentLength` is what the scanner takes at a place, as a count of characters of the
text that is left. The scanner is shown to take that and not to leave the text
(`nextLlamaBpeSegmentEnd_eq`), whatever the classes of the characters are; and the pattern
to prefer it (`firstMatch_splitPattern`), branch by branch, where a space and the two
newline characters are whitespace.

* `bpePretokenizeWith_regex` — the segments are the matches of the pattern.
-/

namespace CamelidEnterprise

open Foundation Foundation.Text

-- ---------------------------------------------------------------------------
-- Scans by byte offset
-- ---------------------------------------------------------------------------

theorem expectChar_append (before : Str) (c : Char) (cs : Str) :
    expectChar (before ++ c :: cs) (byteLen before) = .ok c := by
  unfold expectChar nextChar
  rw [sliceFrom_append]
  rfl

theorem followingChar_append (before rest : Str) :
    followingChar (before ++ rest) (byteLen before) = .ok rest.head? := by
  unfold followingChar nextChar
  rw [sliceFrom_append, byteLen_append]
  cases rest with
  | nil => rw [byteLen_nil, Nat.add_zero, if_neg (Nat.lt_irrefl _)]; rfl
  | cons c cs =>
    have hpos := c.utf8Size_pos
    rw [byteLen_cons, if_pos (by omega)]
    rfl

/-- A scan goes over the characters of its class. -/
theorem scanWhile_append (before rest : Str) (keep : Char → Bool) (count : Nat) :
    scanWhile (before ++ rest) keep count (byteLen before) =
      .ok (byteLen before + byteLen ((rest.takeWhile keep).take count)) := by
  induction count generalizing before rest with
  | zero => simp [scanWhile]
  | succ count ih =>
    rw [scanWhile]
    cases rest with
    | nil => simp
    | cons c cs =>
      have hpos := c.utf8Size_pos
      rw [if_pos (by rw [byteLen_append, byteLen_cons]; omega), expectChar_append,
        Outcome.ok_bind]
      split
      · rename_i hkeep
        have hnext := ih (before ++ [c]) cs
        rw [byteLen_append, byteLen_cons, byteLen_nil, Nat.add_zero, List.append_assoc,
          List.singleton_append] at hnext
        rw [hnext, List.takeWhile_cons_of_pos hkeep, List.take_succ_cons, byteLen_cons,
          Nat.add_assoc]
      · rename_i hkeep
        rw [List.takeWhile_cons_of_neg hkeep, List.take_nil, byteLen_nil, Nat.add_zero]

/-- A scan without a maximum. -/
theorem scanWhile_all (before rest : Str) (keep : Char → Bool) :
    scanWhile (before ++ rest) keep (before ++ rest).length (byteLen before) =
      .ok (byteLen before + byteLen (rest.takeWhile keep)) := by
  have hle := (List.takeWhile_prefix keep (l := rest)).length_le
  rw [scanWhile_append, List.take_of_length_le]
  rw [List.length_append]
  omega

/-- What a run takes is a front part of the text that is left. -/
theorem take_length_takeWhile (keep : Char → Bool) (rest : Str) :
    rest.take (rest.takeWhile keep).length = rest.takeWhile keep :=
  (List.prefix_iff_eq_take.mp (List.takeWhile_prefix keep)).symm

-- ---------------------------------------------------------------------------
-- What the scanner takes, in characters
-- ---------------------------------------------------------------------------

/-- `'\r'` or `'\n'` -/
def isNewline (ch : Char) : Bool := ch == '\n' || ch == '\r'

/-- The length of a contraction. -/
def contractionLength (rest : Str) : Option Nat :=
  contractions.findSome? fun suffix =>
    if eqIgnoreAsciiCase (rest.take suffix.length) suffix then some suffix.length else none

section

variable (cls : CharClass) (digitGroupMax : Nat) (foldMarks : Bool)

/-- The length of letters with at most one other character before them. -/
def prefixLettersLength : Str → Option Nat
  | [] => none
  | ch :: rest =>
    if cls.isLetterClass foldMarks ch then
      some ((ch :: rest).takeWhile (cls.isLetterClass foldMarks)).length
    else if isNewline ch || cls.isNumber ch then none
    else if rest.head?.any (cls.isLetterClass foldMarks) then
      some ((rest.takeWhile (cls.isLetterClass foldMarks)).length + 1)
    else none

/-- The length of punctuation and the newlines after it. -/
def punctuationRun (rest : Str) : Nat :=
  (rest.takeWhile (cls.isPunctuationForBpe foldMarks)).length +
    ((rest.dropWhile (cls.isPunctuationForBpe foldMarks)).takeWhile isNewline).length

/-- The length of punctuation with at most one space before it. -/
def punctuationLength : Str → Option Nat
  | [] => none
  | ch :: rest =>
    if ch = ' ' then
      if rest.head?.any (cls.isPunctuationForBpe foldMarks) then
        some (punctuationRun cls foldMarks rest + 1)
      else none
    else if cls.isPunctuationForBpe foldMarks ch then
      some (punctuationRun cls foldMarks (ch :: rest))
    else none

/-- The length of whitespace up to its last newline. -/
def newlineLength : Str → Option Nat
  | [] => none
  | ch :: rest =>
    if cls.isWhitespace ch then
      ((newlineLength rest).map (· + 1)).or (if isNewline ch then some 1 else none)
    else none

/-- The length of whitespace, short of the last character where text follows. -/
def blankLength (rest : Str) : Nat :=
  let count := (rest.takeWhile cls.isWhitespace).length
  if count = rest.length then count else if count > 1 then count - 1 else count

/-- The length of the segment at the start of the text that is left. -/
def segmentLength (rest : Str) : Nat :=
  ((contractionLength rest).or (prefixLettersLength cls foldMarks rest)).getD <|
    if rest.head?.any cls.isNumber then ((rest.takeWhile cls.isNumber).take digitGroupMax).length
    else
      ((punctuationLength cls foldMarks rest).or (newlineLength cls rest)).getD <|
        if rest.head?.any cls.isWhitespace then blankLength cls rest else 1

end

-- ---------------------------------------------------------------------------
-- The scanner, branch by branch
-- ---------------------------------------------------------------------------

/-- A character that an ASCII letter or mark equals but for its case takes one byte. -/
theorem utf8Size_of_toLower {c d : Char} (h : c.toLower = d) (hd : d.toNat < 128) :
    c.utf8Size = 1 := by
  have hc : c.val ≤ 0x7f := by
    unfold Char.toLower at h
    split at h
    · rename_i hupper
      exact UInt32.le_trans hupper.2 (by decide)
    · subst h
      exact UInt32.le_iff_toNat_le.mpr (Nat.le_of_lt_succ hd)
  exact if_pos hc

/-- A text that equals an ASCII text but for its case has the same bytes. -/
theorem byteLen_of_eqIgnoreAsciiCase {candidate suffix : Str}
    (h : eqIgnoreAsciiCase candidate suffix = true) (hascii : ∀ c ∈ suffix, c.toLower.toNat < 128) :
    candidate.length = suffix.length ∧ byteLen candidate = suffix.length := by
  have hmap : candidate.map Char.toLower = suffix.map Char.toLower := beq_iff_eq.mp h
  have hlen := congrArg List.length hmap
  rw [List.length_map, List.length_map] at hlen
  refine ⟨hlen, ?_⟩
  rw [← hlen]
  have hone : ∀ c ∈ candidate, c.utf8Size = 1 := by
    intro c hc
    have hmem : c.toLower ∈ suffix.map Char.toLower := by
      rw [← hmap]
      exact List.mem_map_of_mem hc
    obtain ⟨d, hd, hsame⟩ := List.mem_map.mp hmem
    exact utf8Size_of_toLower hsame.symm (hascii d hd)
  clear h hascii hmap hlen
  induction candidate with
  | nil => rfl
  | cons c cs ih =>
    rw [byteLen_cons, hone c List.mem_cons_self, ih fun d hd => hone d (List.mem_cons_of_mem c hd),
      List.length_cons, Nat.add_comm]

theorem contractions_ascii {suffix : Str} (h : suffix ∈ contractions) :
    ∀ c ∈ suffix, c.toLower.toNat < 128 := by
  have hall : contractions.all (fun suffix => suffix.all fun c => c.toLower.toNat < 128) = true := by
    decide +kernel
  intro c hc
  exact of_decide_eq_true (List.all_eq_true.mp (List.all_eq_true.mp hall suffix h) c hc)

theorem findSome?_congr {α β : Type} {f g : α → Option β} {l : List α} (h : ∀ x ∈ l, f x = g x) :
    l.findSome? f = l.findSome? g := by
  induction l with
  | nil => rfl
  | cons x l ih =>
    rw [List.findSome?_cons, List.findSome?_cons, h x List.mem_cons_self,
      ih fun y hy => h y (List.mem_cons_of_mem x hy)]

theorem consumeContraction_append (before rest : Str) :
    consumeContraction (before ++ rest) (byteLen before) =
      .ok ((contractionLength rest).map fun n => byteLen before + byteLen (rest.take n)) := by
  unfold consumeContraction contractionLength
  rw [sliceFrom_append]
  show Outcome.ok _ = _
  rw [List.map_findSome?]
  refine congrArg Outcome.ok (findSome?_congr fun suffix hsuffix => ?_)
  have hascii := contractions_ascii hsuffix
  have hwidth : byteLen suffix = suffix.length :=
    (byteLen_of_eqIgnoreAsciiCase (beq_self_eq_true _) hascii).2
  by_cases heq : eqIgnoreAsciiCase (rest.take suffix.length) suffix = true
  · obtain ⟨hlen, hbytes⟩ := byteLen_of_eqIgnoreAsciiCase heq hascii
    have hslice : sliceTo rest suffix.length = some (rest.take suffix.length) :=
      sliceTo_eq_some.mpr ⟨rest.drop suffix.length, (List.take_append_drop _ _).symm, hbytes⟩
    simp only [hwidth, hslice, heq, if_true, Function.comp_apply, Option.map_some, hbytes]
  · cases hslice : sliceTo rest (byteLen suffix) with
    | none => simp only [heq, Bool.false_eq_true, if_false, Function.comp_apply, Option.map_none]
    | some candidate =>
      have hne : eqIgnoreAsciiCase candidate suffix = false := by
        rw [Bool.eq_false_iff]
        intro hcandidate
        obtain ⟨after, rfl, -⟩ := sliceTo_eq_some.mp hslice
        have hlen := (byteLen_of_eqIgnoreAsciiCase hcandidate hascii).1
        rw [List.take_left' hlen] at heq
        exact heq hcandidate
      simp only [hne, heq, Bool.false_eq_true, if_false, Function.comp_apply, Option.map_none]

section

variable {cls : CharClass} {digitGroupMax : Nat} {foldMarks : Bool}

theorem consumeOptionalPrefixLetters_append (before : Str) (ch : Char) (rest : Str) :
    consumeOptionalPrefixLetters cls (before ++ ch :: rest) (byteLen before) foldMarks =
      .ok ((prefixLettersLength cls foldMarks (ch :: rest)).map fun n =>
        byteLen before + byteLen ((ch :: rest).take n)) := by
  unfold consumeOptionalPrefixLetters consumeLetters
  rw [prefixLettersLength, isNewline, expectChar_append, Outcome.ok_bind, scanWhile_all,
    Outcome.ok_bind]
  by_cases hletter : cls.isLetterClass foldMarks ch = true
  · rw [if_pos hletter, if_pos hletter, Option.map_some, take_length_takeWhile]
  rw [if_neg hletter, if_neg hletter]
  have hstops : (decide (ch = '\r') || decide (ch = '\n') || cls.isNumber ch) =
      (ch == '\n' || ch == '\r' || cls.isNumber ch) := by
    rw [Bool.or_comm (decide (ch = '\r'))]
    rfl
  rw [hstops]
  by_cases hstop : (ch == '\n' || ch == '\r' || cls.isNumber ch) = true
  · rw [if_pos hstop, if_pos hstop, Option.map_none]
  rw [if_neg hstop, if_neg hstop]
  -- one character further
  have hsplit : before ++ ch :: rest = (before ++ [ch]) ++ rest := by simp
  have hwidth : byteLen before + ch.utf8Size = byteLen (before ++ [ch]) := by simp
  dsimp only
  rw [hwidth, hsplit, followingChar_append, Outcome.ok_bind]
  cases hhead : rest.head? with
  | none => rfl
  | some next =>
    rw [Option.any_some]
    dsimp only
    by_cases hnext : cls.isLetterClass foldMarks next = true
    · rw [if_pos hnext, if_pos hnext, scanWhile_all, Outcome.ok_bind, Option.map_some,
        List.take_succ_cons, take_length_takeWhile, byteLen_cons, ← hwidth, Nat.add_assoc]
    · rw [if_neg hnext, if_neg hnext, Option.map_none]

theorem take_append_length (front back : Str) (n : Nat) :
    (front ++ back).take (front.length + n) = front ++ back.take n :=
  List.take_length_add_append n

/-- Punctuation, and then newlines. -/
theorem punctuationRun_append (before rest : Str) :
    (scanWhile (before ++ rest) (cls.isPunctuationForBpe foldMarks) (before ++ rest).length
        (byteLen before) >>= fun idx =>
      scanWhile (before ++ rest) (fun ch => ch = '\n' || ch = '\r') (before ++ rest).length idx) =
      .ok (byteLen before + byteLen (rest.take (punctuationRun cls foldMarks rest))) := by
  rw [scanWhile_all, Outcome.ok_bind, ← byteLen_append]
  have hsplit : before ++ rest =
      (before ++ rest.takeWhile (cls.isPunctuationForBpe foldMarks)) ++
        rest.dropWhile (cls.isPunctuationForBpe foldMarks) := by
    rw [List.append_assoc, List.takeWhile_append_dropWhile]
  have hnewline : (fun ch : Char => decide (ch = '\n') || decide (ch = '\r')) = isNewline := rfl
  rw [hsplit, hnewline, scanWhile_all, byteLen_append, Nat.add_assoc, ← byteLen_append]
  -- together they are a front part of the text that is left
  have htake : rest.take (punctuationRun cls foldMarks rest) =
      rest.takeWhile (cls.isPunctuationForBpe foldMarks) ++
        (rest.dropWhile (cls.isPunctuationForBpe foldMarks)).takeWhile isNewline := by
    have hfront := take_append_length (rest.takeWhile (cls.isPunctuationForBpe foldMarks))
      (rest.dropWhile (cls.isPunctuationForBpe foldMarks))
      ((rest.dropWhile (cls.isPunctuationForBpe foldMarks)).takeWhile isNewline).length
    rw [List.takeWhile_append_dropWhile, take_length_takeWhile] at hfront
    exact hfront
  rw [htake]

theorem consumeOptionalSpacePunctuation_append (before : Str) (ch : Char) (rest : Str) :
    consumeOptionalSpacePunctuation cls (before ++ ch :: rest) (byteLen before) foldMarks =
      .ok ((punctuationLength cls foldMarks (ch :: rest)).map fun n =>
        byteLen before + byteLen ((ch :: rest).take n)) := by
  have hsplit : before ++ ch :: rest = (before ++ [ch]) ++ rest := by simp
  have hwidth : byteLen before + ch.utf8Size = byteLen (before ++ [ch]) := by simp
  unfold consumeOptionalSpacePunctuation punctuationStart
  rw [punctuationLength, expectChar_append, Outcome.ok_bind]
  by_cases hspace : ch = ' '
  · rw [if_pos hspace, if_pos hspace]
    dsimp only
    rw [hwidth, hsplit, followingChar_append, Outcome.ok_bind]
    cases hhead : rest.head? with
    | none => rfl
    | some next =>
      rw [Option.any_some]
      dsimp only
      by_cases hnext : cls.isPunctuationForBpe foldMarks next = true
      · rw [if_pos hnext, if_pos hnext, Outcome.ok_bind]
        dsimp only
        obtain ⟨idx, hidx, hstop⟩ := Outcome.bind_eq_ok.mp
          (@punctuationRun_append cls foldMarks (before ++ [ch]) rest)
        rw [hidx, Outcome.ok_bind, hstop, Outcome.ok_bind, Option.map_some, List.take_succ_cons,
          byteLen_cons, ← hwidth, Nat.add_assoc]
      · rw [if_neg hnext, if_neg hnext]
        rfl
  · rw [if_neg hspace, if_neg hspace]
    by_cases hpunctuation : cls.isPunctuationForBpe foldMarks ch = true
    · rw [if_pos hpunctuation, if_pos hpunctuation, Outcome.ok_bind]
      dsimp only
      obtain ⟨idx, hidx, hstop⟩ := Outcome.bind_eq_ok.mp
        (@punctuationRun_append cls foldMarks before (ch :: rest))
      rw [hidx, Outcome.ok_bind, hstop, Outcome.ok_bind, Option.map_some]
    · rw [if_neg hpunctuation, if_neg hpunctuation]
      rfl

/-- By induction on the scan, which remembers in `last` what it has found. -/
theorem scanNewlines_append (before rest : Str) (count : Nat) (last : Option Nat)
    (hcount : rest.length ≤ count) :
    scanNewlines cls (before ++ rest) count (byteLen before) last =
      .ok (((newlineLength cls rest).map fun n => byteLen before + byteLen (rest.take n)).or last) := by
  induction count generalizing before rest last with
  | zero =>
    obtain rfl := List.length_eq_zero_iff.mp (Nat.le_zero.mp hcount)
    rfl
  | succ count ih =>
    cases rest with
    | nil =>
      rw [scanNewlines, List.append_nil, if_neg (Nat.lt_irrefl _)]
      rfl
    | cons ch rest =>
      have hpos := ch.utf8Size_pos
      rw [scanNewlines, if_pos (by rw [byteLen_append, byteLen_cons]; omega), expectChar_append,
        Outcome.ok_bind, newlineLength]
      by_cases hblank : cls.isWhitespace ch = true
      · rw [if_pos hblank, if_pos hblank]
        have hsplit : before ++ ch :: rest = (before ++ [ch]) ++ rest := by simp
        have hwidth : byteLen before + ch.utf8Size = byteLen (before ++ [ch]) := by simp
        dsimp only
        rw [hsplit, hwidth, ih (before ++ [ch]) rest _ (by rw [List.length_cons] at hcount; omega),
          ← hwidth]
        have hshift : (newlineLength cls rest).map (fun n =>
            byteLen before + ch.utf8Size + byteLen (rest.take n)) =
            ((newlineLength cls rest).map (· + 1)).map fun n =>
              byteLen before + byteLen ((ch :: rest).take n) := by
          rw [Option.map_map]
          refine congrArg (fun f => (newlineLength cls rest).map f) (funext fun n => ?_)
          rw [Function.comp_apply, List.take_succ_cons, byteLen_cons, Nat.add_assoc]
        rw [hshift]
        have hlast : (decide (ch = '\n') || decide (ch = '\r')) = isNewline ch := rfl
        rw [hlast]
        cases newlineLength cls rest with
        | some n => rfl
        | none =>
          by_cases hnewline : isNewline ch = true
          · rw [if_pos hnewline, if_pos hnewline]
            simp
          · rw [if_neg hnewline, if_neg hnewline]
            rfl
      · rw [if_neg hblank, if_neg hblank]
        rfl

theorem consumeWhitespaceWithNewline_append (before : Str) (ch : Char) (rest : Str) :
    consumeWhitespaceWithNewline cls (before ++ ch :: rest) (byteLen before) =
      .ok ((newlineLength cls (ch :: rest)).map fun n =>
        byteLen before + byteLen ((ch :: rest).take n)) := by
  unfold consumeWhitespaceWithNewline
  rw [expectChar_append, Outcome.ok_bind]
  by_cases hblank : cls.isWhitespace ch = true
  · rw [if_pos hblank, scanNewlines_append, Option.or_none]
    rw [List.length_append]
    omega
  · rw [if_neg hblank, newlineLength, if_neg hblank]
    rfl

theorem consumeWhitespaceBeforeNonspace_append (before rest : Str) :
    consumeWhitespaceBeforeNonspace cls (before ++ rest) (byteLen before) =
      .ok (byteLen before + byteLen (rest.take (blankLength cls rest))) := by
  unfold consumeWhitespaceBeforeNonspace consumeWhitespace blankLength
  rw [scanWhile_all, Outcome.ok_bind, byteLen_append]
  have hprefix : rest.takeWhile cls.isWhitespace <+: rest := List.takeWhile_prefix _
  obtain ⟨after, hafter⟩ := hprefix
  dsimp only
  generalize hblank : rest.takeWhile cls.isWhitespace = blank at hafter ⊢
  subst hafter
  rw [byteLen_append, List.length_append]
  by_cases hall : after = []
  · subst hall
    rw [if_pos (by simp), if_pos (by simp), List.append_nil, List.take_length]
  · have hbytes : byteLen after ≠ 0 := fun h => hall (byteLen_eq_zero.mp h)
    have hlen : after.length ≠ 0 := fun h => hall (List.length_eq_zero_iff.mp h)
    rw [if_neg (by omega), if_neg (by omega)]
    have hslice : slice (before ++ (blank ++ after)) (byteLen before)
        (byteLen before + byteLen blank) = some blank :=
      slice_eq_some.mpr ⟨before, after, by rw [List.append_assoc], rfl, rfl⟩
    rw [hslice]
    show (if blank.length > 1 then _ else _) = _
    by_cases hmany : blank.length > 1
    · rw [if_pos hmany, if_pos hmany, List.dropLast_eq_take,
        List.take_append_of_le_length (by omega)]
    · rw [if_neg hmany, if_neg hmany, List.take_left]

/-- **Key lemma.** The end of the next segment, whatever the classes of the characters. -/
theorem nextLlamaBpeSegmentEnd_eq (before : Str) {rest : Str} (hne : rest ≠ []) :
    nextLlamaBpeSegmentEnd cls (before ++ rest) (byteLen before) digitGroupMax foldMarks =
      .ok (byteLen before + byteLen (rest.take (segmentLength cls digitGroupMax foldMarks rest))) := by
  obtain ⟨ch, tail, rfl⟩ := List.exists_cons_of_ne_nil hne
  unfold nextLlamaBpeSegmentEnd segmentLength
  rw [consumeContraction_append, Outcome.ok_bind]
  cases contractionLength (ch :: tail) with
  | some n => rfl
  | none =>
    rw [Option.map_none]
    dsimp only
    rw [consumeOptionalPrefixLetters_append, Outcome.ok_bind, Option.none_or]
    cases prefixLettersLength cls foldMarks (ch :: tail) with
    | some n => rfl
    | none =>
      rw [Option.map_none]
      dsimp only
      rw [expectChar_append, Outcome.ok_bind, Option.getD_none, List.head?_cons, Option.any_some]
      by_cases hnumber : cls.isNumber ch = true
      · rw [if_pos hnumber, if_pos hnumber, consumeDigits, scanWhile_append]
        have hprefix := (List.take_prefix digitGroupMax ((ch :: tail).takeWhile cls.isNumber)).trans
          (List.takeWhile_prefix _)
        rw [← List.prefix_iff_eq_take.mp hprefix]
      · rw [if_neg hnumber, if_neg hnumber, consumeOptionalSpacePunctuation_append, Outcome.ok_bind]
        cases punctuationLength cls foldMarks (ch :: tail) with
        | some n => rfl
        | none =>
          rw [Option.map_none]
          dsimp only
          rw [consumeWhitespaceWithNewline_append, Outcome.ok_bind, Option.none_or]
          cases newlineLength cls (ch :: tail) with
          | some n => rfl
          | none =>
            rw [Option.map_none]
            dsimp only
            rw [Option.getD_none, Option.any_some]
            by_cases hblank : cls.isWhitespace ch = true
            · rw [if_pos hblank, if_pos hblank, consumeWhitespaceBeforeNonspace_append]
            · rw [if_neg hblank, if_neg hblank]
              simp

end

-- ---------------------------------------------------------------------------
-- The pattern
-- ---------------------------------------------------------------------------

/-- A text, whatever the case of its ASCII letters. -/
def caseless : Str → Regex Char
  | [] => .star fun _ => false
  | c :: cs => .seq (.char fun d => d.toLower == c) (caseless cs)

/-- The split pattern, alternative by alternative:
`(?i:'s|'t|'re|'ve|'m|'ll|'d)`, `[^\r\n\p{L}\p{N}]?\p{L}+`, `\p{N}{1,N}`,
` ?[^\s\p{L}\p{N}]+[\r\n]*`, `\s*[\r\n]+`, `\s+(?!\S)` and `\s+`. Where marks are folded
`\p{L}+` is `[\p{L}\p{M}]+`, and marks are no punctuation. -/
def splitPattern (cls : CharClass) (digitGroupMax : Nat) (foldMarks : Bool) : Regex Char :=
  .choice [
    .choice (contractions.map caseless),
    .seq (.opt fun ch => !(isNewline ch || cls.isLetter ch || cls.isNumber ch))
      (.plus (cls.isLetterClass foldMarks)),
    .many cls.isNumber 1 (some digitGroupMax),
    .seq (.opt fun ch => ch == ' ')
      (.seq (.plus (cls.isPunctuationForBpe foldMarks)) (.star isNewline)),
    .seq (.star cls.isWhitespace) (.plus isNewline),
    .seq (.plus cls.isWhitespace) (.notNext fun ch => !cls.isWhitespace ch),
    .plus cls.isWhitespace]

/-- The ASCII characters, by class. -/
def asciiText : CharClass where
  isLetter := Char.isAlpha
  isNumber := Char.isDigit
  isWhitespace := Char.isWhitespace
  isMark _ := false

example : (splitPattern asciiText 3 false).tokenize "don't  1234 !!\n  x".toList =
    ["don", "'t", " ", " ", "123", "4", " !!\n", " ", " x"].map String.toList := by
  decide +kernel

/-- A space and the newline characters are whitespace. -/
structure CharClass.Spaced (cls : CharClass) : Prop where
  space : cls.isWhitespace ' ' = true
  newline : ∀ ch, isNewline ch = true → cls.isWhitespace ch = true

theorem firstMatch_caseless (suffix rest : Str) :
    (caseless suffix).firstMatch rest =
      if (rest.take suffix.length).map Char.toLower == suffix then some suffix.length else none := by
  induction suffix generalizing rest with
  | nil =>
    rw [caseless, Regex.firstMatch_star]
    cases rest with
    | nil => rfl
    | cons c cs => rfl
  | cons d suffix ih =>
    rw [caseless]
    cases rest with
    | nil =>
      exact Regex.firstMatch_seq_of_none rfl
    | cons c cs =>
      rw [List.length_cons, List.take_succ_cons, List.map_cons, List.cons_beq_cons]
      by_cases hd : (c.toLower == d) = true
      · rw [Regex.firstMatch_seq_of_ends (by rw [Regex.ends_char_cons, if_pos hd]), List.drop_one,
          List.tail_cons, ih, hd, Bool.true_and]
        split
        · rw [Option.map_some, Nat.add_comm]
        · rfl
      · rw [Regex.firstMatch_seq_of_none (by rw [Regex.ends_char_cons, if_neg hd]),
          Bool.eq_false_iff.mpr hd, Bool.false_and]
        rfl

theorem firstMatch_contractions (rest : Str) :
    (Regex.choice (contractions.map caseless)).firstMatch rest = contractionLength rest := by
  rw [Regex.firstMatch_choice, List.findSome?_map, contractionLength]
  refine findSome?_congr fun suffix hsuffix => ?_
  have hlower : contractions.all (fun suffix => suffix.map Char.toLower == suffix) = true := by
    decide +kernel
  rw [Function.comp_apply, firstMatch_caseless, eqIgnoreAsciiCase,
    beq_iff_eq.mp (List.all_eq_true.mp hlower suffix hsuffix)]

section

variable {cls : CharClass} {digitGroupMax : Nat} {foldMarks : Bool}

theorem firstMatch_prefixLetters (rest : Str) :
    (Regex.seq (.opt fun ch => !(isNewline ch || cls.isLetter ch || cls.isNumber ch))
      (.plus (cls.isLetterClass foldMarks))).firstMatch rest =
      prefixLettersLength cls foldMarks rest := by
  cases rest with
  | nil => rfl
  | cons ch rest =>
    rw [Regex.firstMatch_seq_opt_cons, Regex.firstMatch_plus, Regex.firstMatch_plus,
      List.head?_cons, Option.any_some, prefixLettersLength]
    by_cases hletter : cls.isLetterClass foldMarks ch = true
    · rw [if_pos hletter, if_pos hletter, List.takeWhile_cons_of_pos hletter]
      -- a mark may also be taken as the character before letters
      split
      · split
        · rfl
        · rfl
      · rfl
    · rw [if_neg hletter, if_neg hletter, Option.or_none]
      have hplain : cls.isLetter ch = false := by
        cases hch : cls.isLetter ch with
        | false => rfl
        | true => exact absurd (by rw [CharClass.isLetterClass, hch, Bool.true_or]) hletter
      rw [hplain, Bool.or_false]
      cases isNewline ch || cls.isNumber ch with
      | true => rfl
      | false =>
        rw [Bool.not_false, if_pos rfl, if_neg Bool.false_ne_true]
        split
        · rfl
        · rfl

theorem firstMatch_punctuation (hspaced : cls.Spaced) (rest : Str) :
    (Regex.seq (.opt fun ch => ch == ' ')
      (.seq (.plus (cls.isPunctuationForBpe foldMarks)) (.star isNewline))).firstMatch rest =
      punctuationLength cls foldMarks rest := by
  cases rest with
  | nil => rfl
  | cons ch rest =>
    rw [Regex.firstMatch_seq_opt_cons, Regex.firstMatch_seq_plus_star,
      Regex.firstMatch_seq_plus_star, List.head?_cons, Option.any_some, punctuationLength]
    by_cases hspace : ch = ' '
    · have hblank : cls.isPunctuationForBpe foldMarks ch = false := by
        rw [CharClass.isPunctuationForBpe, hspace, hspaced.space]
        rfl
      rw [if_pos (beq_iff_eq.mpr hspace), if_pos hspace, hblank, if_neg Bool.false_ne_true,
        Option.or_none]
      split
      · rfl
      · rfl
    · rw [if_neg (fun h => hspace (beq_iff_eq.mp h)), if_neg hspace]
      rfl

theorem firstMatch_newline (hspaced : cls.Spaced) (rest : Str) :
    (Regex.seq (.star cls.isWhitespace) (.plus isNewline)).firstMatch rest =
      newlineLength cls rest := by
  induction rest with
  | nil => rfl
  | cons ch rest ih =>
    rw [Regex.firstMatch_seq_star_cons, ih, Regex.firstMatch_plus, List.head?_cons,
      Option.any_some, newlineLength]
    by_cases hblank : cls.isWhitespace ch = true
    · rw [if_pos hblank, if_pos hblank]
      cases hlater : newlineLength cls rest with
      | some n => rfl
      | none =>
        -- no newline follows, so the run of newlines ends here
        rw [Option.map_none, Option.none_or, Option.none_or]
        split
        · rename_i hnewline
          have hnone : rest.takeWhile isNewline = [] := by
            cases rest with
            | nil => rfl
            | cons next later =>
              refine List.takeWhile_cons_of_neg fun hnext => ?_
              rw [newlineLength, if_pos (hspaced.newline next hnext), if_pos hnext] at hlater
              cases hmore : newlineLength cls later with
              | some n => rw [hmore] at hlater; cases hlater
              | none => rw [hmore] at hlater; cases hlater
          rw [List.takeWhile_cons_of_pos hnewline, hnone]
          rfl
        · rfl
    · rw [if_neg hblank, if_neg hblank, if_neg fun hnewline => hblank (hspaced.newline ch hnewline)]

/-- Whitespace that may stop short of its last character. -/
theorem firstMatch_star_blank (rest : Str) :
    (Regex.seq (.star cls.isWhitespace) (.notNext fun ch => !cls.isWhitespace ch)).firstMatch rest =
      if (rest.takeWhile cls.isWhitespace).length = rest.length then some rest.length
      else if (rest.takeWhile cls.isWhitespace).length = 0 then none
      else some ((rest.takeWhile cls.isWhitespace).length - 1) := by
  induction rest with
  | nil => rfl
  | cons ch rest ih =>
    rw [Regex.firstMatch_seq_star_cons, Regex.firstMatch_notNext, List.head?_cons, Option.any_some]
    by_cases hblank : cls.isWhitespace ch = true
    · rw [if_pos hblank, ih, hblank, List.takeWhile_cons_of_pos hblank, List.length_cons,
        List.length_cons]
      generalize (rest.takeWhile cls.isWhitespace).length = count
      generalize rest.length = total
      by_cases hall : count = total
      · rw [if_pos hall, if_pos (congrArg (· + 1) hall)]
        rfl
      · rw [if_neg hall, if_neg (fun h => hall (Nat.succ.inj h)), if_neg (Nat.succ_ne_zero count)]
        cases count with
        | zero => rfl
        | succ count => rfl
    · rw [if_neg hblank, Bool.eq_false_iff.mpr hblank, List.takeWhile_cons_of_neg hblank]
      rfl

theorem firstMatch_blank (rest : Str) :
    ((Regex.seq (.plus cls.isWhitespace) (.notNext fun ch => !cls.isWhitespace ch)).firstMatch rest).or
      ((Regex.plus cls.isWhitespace).firstMatch rest) =
      if rest.head?.any cls.isWhitespace then some (blankLength cls rest) else none := by
  cases rest with
  | nil => rfl
  | cons ch rest =>
    rw [Regex.firstMatch_seq_plus_cons, Regex.firstMatch_plus, List.head?_cons, Option.any_some,
      firstMatch_star_blank]
    by_cases hblank : cls.isWhitespace ch = true
    · rw [if_pos hblank, if_pos hblank, if_pos hblank, blankLength,
        List.takeWhile_cons_of_pos hblank, List.length_cons, List.length_cons]
      generalize (rest.takeWhile cls.isWhitespace).length = count
      generalize rest.length = total
      by_cases hall : count = total
      · rw [if_pos hall, if_pos (congrArg (· + 1) hall), hall]
        rfl
      · rw [if_neg hall, if_neg (fun h => hall (Nat.succ.inj h))]
        cases count with
        | zero => rfl
        | succ count => rfl
    · rw [if_neg hblank, if_neg hblank, if_neg hblank]
      rfl

/-- A character of no other class is punctuation. -/
theorem punctuation_of_rest (hspaced : cls.Spaced) {ch : Char} {rest : Str}
    (hletters : prefixLettersLength cls foldMarks (ch :: rest) = none)
    (hnumber : cls.isNumber ch = false) (hblank : cls.isWhitespace ch = false) :
    punctuationLength cls foldMarks (ch :: rest) ≠ none := by
  have hletter : cls.isLetterClass foldMarks ch = false := by
    rw [Bool.eq_false_iff]
    intro hletter
    rw [prefixLettersLength, if_pos hletter] at hletters
    cases hletters
  have hspace : ch ≠ ' ' := by
    rintro rfl
    rw [hspaced.space] at hblank
    cases hblank
  have hpunctuation : cls.isPunctuationForBpe foldMarks ch = true := by
    rw [CharClass.isPunctuationForBpe, hblank, hletter, hnumber]
    rfl
  rw [punctuationLength, if_neg hspace, if_pos hpunctuation]
  exact Option.some_ne_none _

/-- **Key lemma.** The match of the pattern that is preferred. -/
theorem firstMatch_splitPattern (hspaced : cls.Spaced) (hcap : 1 ≤ digitGroupMax) {rest : Str}
    (hne : rest ≠ []) :
    (splitPattern cls digitGroupMax foldMarks).firstMatch rest =
      some (segmentLength cls digitGroupMax foldMarks rest) := by
  obtain ⟨ch, tail, rfl⟩ := List.exists_cons_of_ne_nil hne
  obtain ⟨cap, rfl⟩ := Nat.exists_eq_add_of_le' hcap
  -- alternative by alternative, in the order in which the scanner tries its rules
  unfold splitPattern segmentLength
  rw [Regex.firstMatch_choice, List.findSome?_cons, firstMatch_contractions]
  cases contractionLength (ch :: tail) with
  | some n => rfl
  | none =>
    dsimp only
    rw [List.findSome?_cons, firstMatch_prefixLetters, Option.none_or]
    cases hletters : prefixLettersLength cls foldMarks (ch :: tail) with
    | some n => rfl
    | none =>
      dsimp only
      rw [List.findSome?_cons, Regex.firstMatch_many_one, List.head?_cons, Option.any_some,
        Option.getD_none]
      by_cases hnumber : cls.isNumber ch = true
      · rw [if_pos hnumber, if_pos hnumber]
      · rw [if_neg hnumber, if_neg hnumber]
        dsimp only
        rw [List.findSome?_cons, firstMatch_punctuation hspaced]
        cases hpunctuation : punctuationLength cls foldMarks (ch :: tail) with
        | some n => rfl
        | none =>
          dsimp only
          rw [List.findSome?_cons, firstMatch_newline hspaced, Option.none_or]
          cases newlineLength cls (ch :: tail) with
          | some n => rfl
          | none =>
            dsimp only
            -- what no rule before takes is a blank
            have hblank : cls.isWhitespace ch = true := by
              by_contra hblank
              exact punctuation_of_rest hspaced hletters (Bool.eq_false_iff.mpr hnumber)
                (Bool.eq_false_iff.mpr hblank) hpunctuation
            have hlast := @firstMatch_blank cls (ch :: tail)
            rw [List.head?_cons, Option.any_some, if_pos hblank] at hlast
            rw [Option.getD_none, Option.any_some, if_pos hblank, List.findSome?_cons,
              List.findSome?_cons]
            cases hstop : (Regex.seq (.plus cls.isWhitespace)
                (.notNext fun ch => !cls.isWhitespace ch)).firstMatch (ch :: tail) with
            | some n =>
              rw [hstop] at hlast
              exact hlast
            | none =>
              rw [hstop, Option.none_or] at hlast
              dsimp only
              rw [hlast]

-- ---------------------------------------------------------------------------
-- The scanner always goes on
-- ---------------------------------------------------------------------------

theorem contractionLength_pos {rest : Str} {n : Nat} (h : contractionLength rest = some n) :
    0 < n := by
  obtain ⟨suffix, hsuffix, hn⟩ := List.exists_of_findSome?_eq_some h
  have hlong : contractions.all (fun suffix => 0 < suffix.length) = true := by decide +kernel
  split at hn
  · rw [← Option.some.inj hn]
    exact of_decide_eq_true (List.all_eq_true.mp hlong suffix hsuffix)
  · cases hn

theorem prefixLettersLength_pos {rest : Str} {n : Nat}
    (h : prefixLettersLength cls foldMarks rest = some n) : 0 < n := by
  cases rest with
  | nil => cases h
  | cons ch rest =>
    rw [prefixLettersLength] at h
    split at h
    · rename_i hletter
      rw [List.takeWhile_cons_of_pos hletter] at h
      rw [← Option.some.inj h]
      exact Nat.succ_pos _
    · split at h
      · cases h
      · split at h
        · rw [← Option.some.inj h]
          exact Nat.succ_pos _
        · cases h

theorem punctuationLength_pos {rest : Str} {n : Nat}
    (h : punctuationLength cls foldMarks rest = some n) : 0 < n := by
  cases rest with
  | nil => cases h
  | cons ch rest =>
    rw [punctuationLength] at h
    split at h
    · split at h
      · rw [← Option.some.inj h]
        exact Nat.succ_pos _
      · cases h
    · split at h
      · rename_i hmark
        rw [← Option.some.inj h, punctuationRun, List.takeWhile_cons_of_pos hmark,
          List.length_cons]
        omega
      · cases h

theorem newlineLength_pos {rest : Str} {n : Nat} (h : newlineLength cls rest = some n) : 0 < n := by
  cases rest with
  | nil => cases h
  | cons ch rest =>
    rw [newlineLength] at h
    split at h
    · rcases Option.or_eq_some_iff.mp h with hlater | ⟨-, hhere⟩
      · obtain ⟨k, -, rfl⟩ := Option.map_eq_some_iff.mp hlater
        exact Nat.succ_pos k
      · split at hhere
        · rw [← Option.some.inj hhere]
          exact Nat.one_pos
        · cases hhere
    · cases h

theorem blankLength_pos {ch : Char} {rest : Str} (h : cls.isWhitespace ch = true) :
    0 < blankLength cls (ch :: rest) := by
  rw [blankLength, List.takeWhile_cons_of_pos h, List.length_cons, List.length_cons]
  split
  · omega
  · split
    · omega
    · omega

theorem segmentLength_pos (hcap : 1 ≤ digitGroupMax) {rest : Str} (hne : rest ≠ []) :
    0 < segmentLength cls digitGroupMax foldMarks rest := by
  obtain ⟨ch, tail, rfl⟩ := List.exists_cons_of_ne_nil hne
  unfold segmentLength
  rw [List.head?_cons, Option.any_some, Option.any_some]
  cases hfirst : (contractionLength (ch :: tail)).or (prefixLettersLength cls foldMarks (ch :: tail)) with
  | some n =>
    rw [Option.getD_some]
    rcases Option.or_eq_some_iff.mp hfirst with hcontraction | ⟨-, hletters⟩
    · exact contractionLength_pos hcontraction
    · exact prefixLettersLength_pos hletters
  | none =>
    rw [Option.getD_none]
    split
    · rename_i hnumber
      rw [List.takeWhile_cons_of_pos hnumber, List.length_take, List.length_cons]
      omega
    · cases hnext : (punctuationLength cls foldMarks (ch :: tail)).or (newlineLength cls (ch :: tail)) with
      | some n =>
        rw [Option.getD_some]
        rcases Option.or_eq_some_iff.mp hnext with hpunctuation | ⟨-, hnewline⟩
        · exact punctuationLength_pos hpunctuation
        · exact newlineLength_pos hnewline
      | none =>
        rw [Option.getD_none]
        split
        · rename_i hblank
          exact blankLength_pos hblank
        · exact Nat.one_pos

-- ---------------------------------------------------------------------------
-- The segments of a text
-- ---------------------------------------------------------------------------

/-- One turn of the loop: it takes the next segment, and goes on after it. -/
theorem bpePretokenizeFrom_cons (before : Str) {rest : Str} (hne : rest ≠ []) (fuel : Nat) :
    bpePretokenizeFrom cls (before ++ rest) digitGroupMax foldMarks (fuel + 1) (byteLen before) =
      (bpePretokenizeFrom cls (before ++ rest) digitGroupMax foldMarks fuel
        (byteLen (before ++ rest.take (segmentLength cls digitGroupMax foldMarks rest))) >>=
          fun segments =>
            .ok (rest.take (segmentLength cls digitGroupMax foldMarks rest) :: segments)) := by
  have hbytes : byteLen rest ≠ 0 := fun h => hne (byteLen_eq_zero.mp h)
  rw [bpePretokenizeFrom, if_pos (by rw [byteLen_append]; omega), nextLlamaBpeSegmentEnd_eq before hne,
    Outcome.ok_bind]
  generalize segmentLength cls digitGroupMax foldMarks rest = n
  have hslice : slice (before ++ rest) (byteLen before) (byteLen before + byteLen (rest.take n)) =
      some (rest.take n) :=
    slice_eq_some.mpr ⟨before, rest.drop n, by rw [List.append_assoc, List.take_append_drop], rfl,
      rfl⟩
  rw [hslice, byteLen_append]
  rfl

/-- A segment takes bytes from the text that is left. -/
theorem byteLen_drop_lt {rest : Str} (hne : rest ≠ []) {n : Nat} (hn : 0 < n) :
    byteLen (rest.drop n) < byteLen rest := by
  obtain ⟨ch, tail, rfl⟩ := List.exists_cons_of_ne_nil hne
  obtain ⟨k, rfl⟩ := Nat.exists_eq_add_of_le' hn
  have hpos := ch.utf8Size_pos
  have hsum : byteLen (tail.take k) + byteLen (tail.drop k) = byteLen tail := by
    rw [← byteLen_append, List.take_append_drop]
  rw [List.drop_succ_cons, byteLen_cons]
  omega

/-- The loop ends, with the segments of the text, whatever the classes are. -/
theorem bpePretokenizeFrom_ok (hcap : 1 ≤ digitGroupMax) (before rest : Str) {fuel : Nat}
    (hfuel : byteLen rest < fuel) :
    ∃ segments, bpePretokenizeFrom cls (before ++ rest) digitGroupMax foldMarks fuel
      (byteLen before) = .ok segments := by
  induction fuel generalizing before rest with
  | zero => omega
  | succ fuel ih =>
    by_cases hne : rest = []
    · refine ⟨[], ?_⟩
      rw [hne, bpePretokenizeFrom, List.append_nil, if_neg (Nat.lt_irrefl _)]
    · have hlt := byteLen_drop_lt hne (@segmentLength_pos cls digitGroupMax foldMarks hcap rest hne)
      rw [bpePretokenizeFrom_cons before hne]
      generalize segmentLength cls digitGroupMax foldMarks rest = n at hlt ⊢
      obtain ⟨segments, hsegments⟩ := ih (before ++ rest.take n) (rest.drop n) (by omega)
      rw [List.append_assoc, List.take_append_drop] at hsegments
      exact ⟨_, by rw [hsegments, Outcome.ok_bind]⟩

/-- The loop makes the cuts that the pattern makes. -/
theorem bpePretokenizeFrom_regex (hspaced : cls.Spaced) (hcap : 1 ≤ digitGroupMax)
    (before rest : Str) {fuel limit : Nat} (hfuel : byteLen rest < fuel)
    (hlimit : rest.length ≤ limit) :
    bpePretokenizeFrom cls (before ++ rest) digitGroupMax foldMarks fuel (byteLen before) =
      .ok ((splitPattern cls digitGroupMax foldMarks).tokenizeFuel limit rest) := by
  induction fuel generalizing before rest limit with
  | zero => omega
  | succ fuel ih =>
    by_cases hne : rest = []
    · rw [hne, bpePretokenizeFrom, List.append_nil, if_neg (Nat.lt_irrefl _),
        Regex.tokenizeFuel_nil]
    · have hpos := @segmentLength_pos cls digitGroupMax foldMarks hcap rest hne
      have hmatch := @firstMatch_splitPattern cls digitGroupMax foldMarks hspaced hcap rest hne
      have hlt := byteLen_drop_lt hne hpos
      have hlen := List.length_pos_iff.mpr hne
      rw [bpePretokenizeFrom_cons before hne]
      generalize segmentLength cls digitGroupMax foldMarks rest = n at hpos hmatch hlt ⊢
      obtain ⟨k, rfl⟩ : ∃ k, n = k + 1 := ⟨n - 1, by omega⟩
      obtain ⟨left, rfl⟩ : ∃ left, limit = left + 1 := ⟨limit - 1, by omega⟩
      have hleft : (rest.drop (k + 1)).length ≤ left := by
        rw [List.length_drop]
        omega
      have hrest := ih (before ++ rest.take (k + 1)) (rest.drop (k + 1)) (by omega) hleft
      rw [List.append_assoc, List.take_append_drop] at hrest
      rw [hrest, Regex.tokenizeFuel_of_match hne hmatch]
      rfl

theorem splitPattern_covers (hspaced : cls.Spaced) (hcap : 1 ≤ digitGroupMax) :
    (splitPattern cls digitGroupMax foldMarks).Covers := by
  intro rest hne
  have hpos := @segmentLength_pos cls digitGroupMax foldMarks hcap rest hne
  obtain ⟨k, hk⟩ := Nat.exists_eq_add_of_le' hpos
  exact ⟨k, by rw [firstMatch_splitPattern hspaced hcap hne, hk]⟩

/-- **The pre-tokenizer equals its pattern.** For every text, every cap of at least one
digit, either setting for marks, and every classification in which a space and the
newline characters are whitespace, the segments are the leftmost-first matches of the
split pattern; none is empty, and together they are the text. -/
theorem bpePretokenizeWith_regex {cls : CharClass} {digitGroupMax : Nat} (text : Str)
    (foldMarks : Bool) (hcap : 1 ≤ digitGroupMax) (hspace : cls.isWhitespace ' ' = true)
    (hreturn : cls.isWhitespace '\r' = true) (hfeed : cls.isWhitespace '\n' = true) :
    bpePretokenizeWith cls text digitGroupMax foldMarks =
        .ok ((splitPattern cls digitGroupMax foldMarks).tokenize text) ∧
      (∀ segment ∈ (splitPattern cls digitGroupMax foldMarks).tokenize text, segment ≠ []) ∧
      ((splitPattern cls digitGroupMax foldMarks).tokenize text).flatten = text := by
  have hspaced : cls.Spaced := by
    refine ⟨hspace, fun ch hch => ?_⟩
    rcases (Bool.or_eq_true _ _).mp hch with h | h
    · rw [beq_iff_eq.mp h, hfeed]
    · rw [beq_iff_eq.mp h, hreturn]
  obtain ⟨hflatten, hnonempty⟩ :=
    (@splitPattern_covers cls digitGroupMax foldMarks hspaced hcap).tokenize_spec text
  refine ⟨?_, hnonempty, hflatten⟩
  exact bpePretokenizeFrom_regex hspaced hcap [] text (Nat.lt_succ_self _) (Nat.le_refl _)

end

/-- The scanner on a text of every kind of segment. -/
theorem bpePretokenizeWith_regex_ascii :
    bpePretokenizeWith asciiText "it's 1234 !!\n  x".toList 3 false =
      .ok ((splitPattern asciiText 3 false).tokenize "it's 1234 !!\n  x".toList) :=
  (bpePretokenizeWith_regex _ false (by decide) rfl rfl rfl).1

end CamelidEnterprise

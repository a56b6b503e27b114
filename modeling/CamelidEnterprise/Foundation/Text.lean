import Mathlib.Algebra.Ring.Nat
import CamelidEnterprise.Foundation.Utf8

/-!
# Text addressed by byte offsets

A program that walks a string by byte offset reads `text[a..]`, `text[..b]` and
`text[a..b]`, each of which exists only when its ends fall between characters.
Here a text is the list of its characters, `byteLen` is the number of bytes it
encodes to, and a slice is absent where the program's would fail.

`sliceFrom_eq_some` and `slice_eq_some` turn every slice into an equation between
lists, so that a proof about a byte-addressed walk is a proof about `++`.
-/

namespace Foundation

namespace Text

/-- The number of bytes of a text. -/
def byteLen (text : List Char) : Nat := (text.map Char.utf8Size).sum

@[simp] theorem byteLen_nil : byteLen [] = 0 := rfl

@[simp] theorem byteLen_cons (c : Char) (cs : List Char) :
    byteLen (c :: cs) = c.utf8Size + byteLen cs := by
  simp [byteLen]

@[simp] theorem byteLen_append (s t : List Char) : byteLen (s ++ t) = byteLen s + byteLen t := by
  simp [byteLen]

theorem length_encode (text : List Char) : (Utf8.encode text).length = byteLen text := by
  induction text with
  | nil => rfl
  | cons c cs ih =>
    rw [Utf8.encode_cons, List.length_append, String.length_utf8EncodeChar, ih, byteLen_cons]

/-- A character takes at least one byte. -/
theorem length_le_byteLen (text : List Char) : text.length ≤ byteLen text := by
  induction text with
  | nil => exact Nat.le_refl _
  | cons c cs ih =>
    have hpos := c.utf8Size_pos
    rw [List.length_cons, byteLen_cons]
    omega

theorem byteLen_eq_zero {text : List Char} : byteLen text = 0 ↔ text = [] := by
  constructor
  · intro h
    have hlen := length_le_byteLen text
    exact List.length_eq_zero_iff.mp (by omega)
  · rintro rfl
    rfl

/-! ## Slices -/

/-- `text[n..]` -/
def sliceFrom : List Char → Nat → Option (List Char)
  | text, 0 => some text
  | [], _ + 1 => none
  | c :: cs, n + 1 => if c.utf8Size ≤ n + 1 then sliceFrom cs (n + 1 - c.utf8Size) else none

/-- `text[..n]` -/
def sliceTo : List Char → Nat → Option (List Char)
  | _, 0 => some []
  | [], _ + 1 => none
  | c :: cs, n + 1 =>
    if c.utf8Size ≤ n + 1 then (sliceTo cs (n + 1 - c.utf8Size)).map (c :: ·) else none

/-- `text[a..b]` -/
def slice (text : List Char) (a b : Nat) : Option (List Char) :=
  if a ≤ b then (sliceFrom text a).bind fun rest => sliceTo rest (b - a) else none

/-- The byte offsets at which the characters of a text start, from `base` on. -/
def charIndices : List Char → Nat → List Nat
  | [], _ => []
  | c :: cs, base => base :: charIndices cs (base + c.utf8Size)

/-- `needle` occurs somewhere in the text. -/
def contains (needle : List Char) : List Char → Bool
  | [] => needle.isEmpty
  | c :: cs => needle.isPrefixOf (c :: cs) || contains needle cs

theorem sliceFrom_eq_some {text rest : List Char} {n : Nat} :
    sliceFrom text n = some rest ↔ ∃ before, text = before ++ rest ∧ byteLen before = n := by
  induction text generalizing n with
  | nil =>
    cases n with
    | zero =>
      rw [sliceFrom, Option.some.injEq]
      constructor
      · rintro rfl
        exact ⟨[], rfl, rfl⟩
      · rintro ⟨before, hbefore, -⟩
        exact (List.append_eq_nil_iff.mp hbefore.symm).2.symm
    | succ n =>
      rw [sliceFrom]
      constructor
      · intro h
        cases h
      · rintro ⟨before, hbefore, hlen⟩
        rw [(List.append_eq_nil_iff.mp hbefore.symm).1] at hlen
        cases hlen
  | cons c cs ih =>
    have hpos := c.utf8Size_pos
    cases n with
    | zero =>
      rw [sliceFrom, Option.some.injEq]
      constructor
      · rintro rfl
        exact ⟨[], rfl, rfl⟩
      · rintro ⟨before, hbefore, hlen⟩
        rw [byteLen_eq_zero.mp hlen] at hbefore
        exact hbefore
    | succ n =>
      rw [sliceFrom]
      constructor
      · intro h
        split at h
        · rename_i hle
          obtain ⟨before, hbefore, hlen⟩ := ih.mp h
          refine ⟨c :: before, by rw [hbefore, List.cons_append], ?_⟩
          rw [byteLen_cons, hlen]
          omega
        · cases h
      · rintro ⟨before, hbefore, hlen⟩
        cases before with
        | nil => cases hlen
        | cons d ds =>
          obtain ⟨rfl, htail⟩ := List.cons.inj hbefore
          rw [byteLen_cons] at hlen
          rw [if_pos (by omega)]
          exact ih.mpr ⟨ds, htail, by omega⟩

theorem sliceTo_eq_some {text front : List Char} {n : Nat} :
    sliceTo text n = some front ↔ ∃ after, text = front ++ after ∧ byteLen front = n := by
  induction text generalizing n front with
  | nil =>
    cases n with
    | zero =>
      rw [sliceTo, Option.some.injEq]
      constructor
      · rintro rfl
        exact ⟨[], rfl, rfl⟩
      · rintro ⟨after, -, hlen⟩
        exact (byteLen_eq_zero.mp hlen).symm
    | succ n =>
      rw [sliceTo]
      constructor
      · intro h
        cases h
      · rintro ⟨after, hafter, hlen⟩
        rw [(List.append_eq_nil_iff.mp hafter.symm).1] at hlen
        cases hlen
  | cons c cs ih =>
    have hpos := c.utf8Size_pos
    cases n with
    | zero =>
      rw [sliceTo, Option.some.injEq]
      constructor
      · rintro rfl
        exact ⟨c :: cs, rfl, rfl⟩
      · rintro ⟨after, -, hlen⟩
        exact (byteLen_eq_zero.mp hlen).symm
    | succ n =>
      rw [sliceTo]
      constructor
      · intro h
        split at h
        · obtain ⟨front', hfront, rfl⟩ := Option.map_eq_some_iff.mp h
          obtain ⟨after, hafter, hlen⟩ := ih.mp hfront
          refine ⟨after, by rw [hafter, List.cons_append], ?_⟩
          rw [byteLen_cons, hlen]
          omega
        · cases h
      · rintro ⟨after, hafter, hlen⟩
        cases front with
        | nil => cases hlen
        | cons d ds =>
          obtain ⟨rfl, htail⟩ := List.cons.inj hafter
          rw [byteLen_cons] at hlen
          rw [if_pos (by omega), Option.map_eq_some_iff]
          exact ⟨ds, ih.mpr ⟨after, htail, by omega⟩, rfl⟩

/-- A slice that exists cuts its text in three. -/
theorem slice_eq_some {text mid : List Char} {a b : Nat} :
    slice text a b = some mid ↔
      ∃ before after, text = before ++ mid ++ after ∧ byteLen before = a ∧
        byteLen before + byteLen mid = b := by
  unfold slice
  constructor
  · intro h
    split at h
    · rename_i hab
      obtain ⟨rest, hrest, hmid⟩ := Option.bind_eq_some_iff.mp h
      obtain ⟨before, rfl, hbefore⟩ := sliceFrom_eq_some.mp hrest
      obtain ⟨after, rfl, hlen⟩ := sliceTo_eq_some.mp hmid
      exact ⟨before, after, by rw [List.append_assoc], hbefore, by omega⟩
    · cases h
  · rintro ⟨before, after, rfl, hbefore, hlen⟩
    rw [if_pos (by omega), Option.bind_eq_some_iff]
    refine ⟨mid ++ after, sliceFrom_eq_some.mpr ⟨before, by rw [List.append_assoc], hbefore⟩, ?_⟩
    exact sliceTo_eq_some.mpr ⟨after, rfl, by omega⟩

theorem sliceFrom_append (before rest : List Char) :
    sliceFrom (before ++ rest) (byteLen before) = some rest :=
  sliceFrom_eq_some.mpr ⟨before, rfl, rfl⟩

/-- A byte offset into a text names one place in it. -/
theorem append_inj_of_byteLen {s s' t t' : List Char} (h : s ++ t = s' ++ t')
    (hlen : byteLen s = byteLen s') : s = s' ∧ t = t' := by
  have ht : t = t' := Option.some.inj <|
    calc some t = sliceFrom (s ++ t) (byteLen s) := (sliceFrom_append s t).symm
      _ = sliceFrom (s' ++ t') (byteLen s') := by rw [h, hlen]
      _ = some t' := sliceFrom_append s' t'
  subst ht
  exact ⟨List.append_cancel_right h, rfl⟩

/-! ## Markers

A marker whose first character does not come again in it cannot overlap itself, so
a text that does not contain it ends where the marker begins. -/

theorem contains_eq_true {needle text : List Char} :
    contains needle text = true ↔ needle <:+: text := by
  induction text with
  | nil => simp [contains]
  | cons c cs ih => simp [contains, ih, List.infix_cons_iff]

theorem contains_eq_false {needle text : List Char} :
    contains needle text = false ↔ ¬needle <:+: text := by
  rw [← contains_eq_true, Bool.not_eq_true]

/-- Of two ways to cut a text, the first part of one ends inside the first part of the other,
or with it, or the other way around. -/
theorem split_append {s t u v : List Char} (h : s ++ t = u ++ v) :
    (∃ d, u = s ++ d ∧ t = d ++ v) ∨ ∃ d, d ≠ [] ∧ s = u ++ d ∧ v = d ++ t := by
  rcases List.append_eq_append_iff.mp h with ⟨d, hu, ht⟩ | ⟨d, hs, hv⟩
  · exact .inl ⟨d, hu, ht⟩
  · by_cases hnil : d = []
    · subst hnil
      exact .inl ⟨[], by rw [hs, List.append_nil, List.append_nil], hv.symm⟩
    · exact .inr ⟨d, hnil, hs, hv⟩

/-- In front of its marker a text without it has no occurrence that reaches into the
marker. -/
theorem eq_nil_of_marker {c : Char} {cs s d t t' : List Char} (hfresh : c ∉ cs)
    (hs : ¬(c :: cs) <:+: s ++ d) (h : c :: cs ++ t = d ++ (c :: cs ++ t')) : d = [] := by
  rcases List.append_eq_append_iff.mp h with ⟨e, hd, -⟩ | ⟨e, hmarker, hrest⟩
  · -- the whole marker is inside `d`
    exact absurd ⟨s, e, by rw [hd, List.append_assoc]⟩ hs
  · cases d with
    | nil => rfl
    | cons x d =>
      obtain ⟨rfl, hcs⟩ := List.cons.inj hmarker
      cases e with
      | nil =>
        obtain rfl : cs = d := hcs.trans (List.append_nil d)
        exact absurd ⟨s, [], by rw [List.append_nil]⟩ hs
      | cons y e =>
        -- the marker would begin again inside itself
        obtain ⟨rfl, -⟩ := List.cons.inj hrest
        exact absurd (hcs ▸ List.mem_append_right _ List.mem_cons_self) hfresh

/-- A text is cut at its first marker in one way only. -/
theorem cut_unique {c : Char} {cs s s' t t' : List Char} (hfresh : c ∉ cs)
    (hs : ¬(c :: cs) <:+: s) (hs' : ¬(c :: cs) <:+: s')
    (h : s ++ (c :: cs ++ t) = s' ++ (c :: cs ++ t')) : s = s' ∧ t = t' := by
  have hsame : s = s' := by
    rcases List.append_eq_append_iff.mp h with ⟨d, rfl, hd⟩ | ⟨d, rfl, hd⟩
    · rw [eq_nil_of_marker hfresh hs' hd, List.append_nil]
    · rw [eq_nil_of_marker hfresh hs hd, List.append_nil]
  subst hsame
  exact ⟨rfl, List.append_cancel_left (List.append_cancel_left h)⟩

/-- A marker does not reach across into a text whose first character it has only at
its own beginning. -/
theorem infix_append_of_head {c : Char} {cs a b : List Char} (hhead : ∀ x ∈ b.head?, x ∉ cs)
    (h : c :: cs <:+: a ++ b) : c :: cs <:+: a ∨ c :: cs <:+: b := by
  obtain ⟨before, after, hcut⟩ := h
  rw [List.append_assoc] at hcut
  rcases List.append_eq_append_iff.mp hcut with ⟨d, ha, hb⟩ | ⟨d, -, hb⟩
  · rcases List.append_eq_append_iff.mp hb with ⟨e, hd, -⟩ | ⟨e, hmarker, hafter⟩
    · exact Or.inl ⟨before, e, by rw [ha, hd, List.append_assoc]⟩
    · -- the marker starts in `a`, and what is left of it starts `b`
      cases e with
      | nil =>
        rw [List.append_nil] at hmarker
        exact Or.inl ⟨before, [], by rw [ha, hmarker, List.append_nil]⟩
      | cons x e =>
        cases d with
        | nil => exact Or.inr ⟨[], after, by rw [hmarker]; exact hafter.symm⟩
        | cons y d =>
          obtain ⟨-, hcs⟩ := List.cons.inj hmarker
          have hx : x ∈ b.head? := by rw [hafter]; rfl
          exact absurd (hcs ▸ List.mem_append_right _ List.mem_cons_self) (hhead x hx)
  · exact Or.inr ⟨d, after, by rw [hb, List.append_assoc]⟩

/-! ## Blanks -/

/-- `char::is_whitespace`: the Unicode property `White_Space`. -/
def whiteSpace (c : Char) : Bool :=
  (9 ≤ c.toNat && c.toNat ≤ 13) || c.toNat = 0x20 || c.toNat = 0x85 || c.toNat = 0xA0 ||
    c.toNat = 0x1680 || (0x2000 ≤ c.toNat && c.toNat ≤ 0x200A) || c.toNat = 0x2028 ||
    c.toNat = 0x2029 || c.toNat = 0x202F || c.toNat = 0x205F || c.toNat = 0x3000

/-- `trim` -/
def trim (text : List Char) : List Char :=
  ((text.dropWhile whiteSpace).reverse.dropWhile whiteSpace).reverse

/-! ## Lines -/

/-- A line without the carriage return before its line feed. -/
def chomp (line : List Char) : List Char :=
  if line.getLast? = some '\r' then line.dropLast else line

/-- The lines of a text that follows what has been read of a line. -/
def linesFrom (line : List Char) : List Char → List (List Char)
  | [] => if line = [] then [] else [line]
  | c :: cs => if c = '\n' then chomp line :: linesFrom [] cs else linesFrom (line ++ [c]) cs

/-- `lines`: the last one may lack its line feed. -/
def lines (text : List Char) : List (List Char) := linesFrom [] text

theorem linesFrom_append {text : List Char} (h : '\n' ∉ text) (line rest : List Char) :
    linesFrom line (text ++ rest) = linesFrom (line ++ text) rest := by
  induction text generalizing line with
  | nil => rw [List.nil_append, List.append_nil]
  | cons c cs ih =>
    have hc : ¬c = '\n' := fun heq => h (heq ▸ List.mem_cons_self)
    rw [List.cons_append, linesFrom, if_neg hc, ih (fun hcs => h (List.mem_cons_of_mem _ hcs)),
      List.append_assoc, List.singleton_append]

/-- A text without a line feed is one line. -/
theorem lines_single {text : List Char} (h : '\n' ∉ text) (hne : text ≠ []) :
    lines text = [text] := by
  show linesFrom [] text = [text]
  have hfrom := linesFrom_append h [] []
  rw [List.append_nil, List.nil_append, linesFrom, if_neg hne] at hfrom
  exact hfrom

end Text

end Foundation

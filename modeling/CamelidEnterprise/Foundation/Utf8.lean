import Mathlib.Data.List.Basic

/-!
# UTF-8

Text is a list of scalar values; its bytes are their UTF-8 encodings in order.
`decodePrefix` reads as many whole characters as a byte string starts with, which
is what a validating decoder has accepted when it stops: `fromUtf8` is the strict
decoder, `validUpTo` the offset its error reports.

`decodePrefix_eq_iff` characterises the prefix without mentioning how it is
computed, and everything else follows from it — in particular that reading more
bytes never takes back a character (`decodePrefix_mono`).
-/

namespace Foundation

namespace Utf8

/-- The UTF-8 bytes of a text. -/
def encode (text : List Char) : List UInt8 := text.flatMap String.utf8EncodeChar

@[simp] theorem encode_nil : encode [] = [] := rfl

@[simp] theorem encode_cons (c : Char) (cs : List Char) :
    encode (c :: cs) = String.utf8EncodeChar c ++ encode cs := rfl

@[simp] theorem encode_append (s t : List Char) : encode (s ++ t) = encode s ++ encode t := by
  simp [encode]

/-- The character a byte string starts with, and the bytes after it. -/
def decodeChar (bytes : List UInt8) : Option (Char × List UInt8) :=
  (bytes.toByteArray.utf8DecodeChar? 0).map fun c => (c, bytes.drop c.utf8Size)

/-- Reading a character is exactly undoing its encoding. -/
theorem decodeChar_eq_some {bytes rest : List UInt8} {c : Char} :
    decodeChar bytes = some (c, rest) ↔ bytes = String.utf8EncodeChar c ++ rest := by
  unfold decodeChar
  constructor
  · intro h
    obtain ⟨c', hc, hpair⟩ := Option.map_eq_some_iff.mp h
    obtain ⟨rfl, rfl⟩ := Prod.mk.inj hpair
    have hbytes := ByteArray.eq_of_utf8DecodeChar?_eq_some hc
    have hdata := congrArg (fun b => b.data.toList) hbytes
    simp only [ByteArray.data_append, ByteArray.data_extract, List.data_toByteArray,
      Array.toList_append, Array.toList_extract, ByteArray.size] at hdata
    rw [List.extract_eq_take_drop] at hdata
    have htake : (bytes.drop c'.utf8Size).take (bytes.toArray.size - c'.utf8Size) =
        bytes.drop c'.utf8Size := List.take_of_length_le (by simp)
    rw [htake] at hdata
    exact hdata
  · rintro rfl
    rw [Option.map_eq_some_iff]
    refine ⟨c, ?_, ?_⟩
    · rw [List.toByteArray_append]
      exact ByteArray.utf8DecodeChar?_utf8EncodeChar_append
    · rw [List.drop_left' (String.length_utf8EncodeChar c)]

theorem decodeChar_encode (c : Char) (rest : List UInt8) :
    decodeChar (String.utf8EncodeChar c ++ rest) = some (c, rest) :=
  decodeChar_eq_some.mpr rfl

@[simp] theorem decodeChar_nil : decodeChar [] = none := by
  cases h : decodeChar [] with
  | none => rfl
  | some p =>
    have hbytes := congrArg List.length (decodeChar_eq_some.mp h)
    have hpos := p.1.utf8Size_pos
    simp only [List.length_nil, List.length_append, String.length_utf8EncodeChar] at hbytes
    omega

/-- `decodePrefix` with an explicit bound on the number of characters to read. -/
def decodePrefixFuel : Nat → List UInt8 → List Char
  | 0, _ => []
  | fuel + 1, bytes =>
    match decodeChar bytes with
    | some (c, rest) => c :: decodePrefixFuel fuel rest
    | none => []

/-- The whole characters a byte string starts with. -/
def decodePrefix (bytes : List UInt8) : List Char := decodePrefixFuel bytes.length bytes

theorem decodePrefixFuel_eq_iff {fuel : Nat} {bytes : List UInt8} (hfuel : bytes.length ≤ fuel)
    (text : List Char) :
    decodePrefixFuel fuel bytes = text ↔
      ∃ rest, bytes = encode text ++ rest ∧ decodeChar rest = none := by
  induction fuel generalizing bytes text with
  | zero =>
    have hnil : bytes = [] := List.length_eq_zero_iff.mp (Nat.le_zero.mp hfuel)
    subst hnil
    constructor
    · rintro rfl
      exact ⟨[], rfl, decodeChar_nil⟩
    · rintro ⟨rest, hrest, -⟩
      cases text with
      | nil => rfl
      | cons c cs =>
        have hlen := congrArg List.length hrest
        have hpos := c.utf8Size_pos
        simp only [List.length_nil, encode_cons, List.append_assoc, List.length_append,
          String.length_utf8EncodeChar] at hlen
        omega
  | succ fuel ih =>
    rw [decodePrefixFuel]
    cases hchar : decodeChar bytes with
    | none =>
      -- no character starts here, so the text ends
      constructor
      · rintro rfl
        exact ⟨bytes, rfl, hchar⟩
      · rintro ⟨rest, rfl, -⟩
        cases text with
        | nil => rfl
        | cons c cs =>
          rw [encode_cons, List.append_assoc, decodeChar_encode] at hchar
          cases hchar
    | some p =>
      obtain ⟨c, tail⟩ := p
      have hbytes := decodeChar_eq_some.mp hchar
      -- a character takes at least one byte, which is what the fuel counts
      have htail : tail.length ≤ fuel := by
        have hlen := congrArg List.length hbytes
        have hpos := c.utf8Size_pos
        simp only [List.length_append, String.length_utf8EncodeChar] at hlen
        omega
      constructor
      · rintro rfl
        obtain ⟨rest, hrest, hnone⟩ := (ih htail _).mp rfl
        refine ⟨rest, ?_, hnone⟩
        rw [hbytes, encode_cons, List.append_assoc, ← hrest]
      · rintro ⟨rest, hrest, hnone⟩
        cases text with
        | nil =>
          rw [encode_nil, List.nil_append] at hrest
          rw [← hrest, hchar] at hnone
          cases hnone
        | cons d ds =>
          rw [hrest, encode_cons, List.append_assoc, decodeChar_encode] at hchar
          obtain ⟨rfl, rfl⟩ := Prod.mk.inj (Option.some.inj hchar)
          show d :: decodePrefixFuel fuel (encode ds ++ rest) = d :: ds
          rw [(ih htail ds).mpr ⟨rest, rfl, hnone⟩]

/-- The prefix is the one text whose encoding the bytes start with and after
which no further character can be read. -/
theorem decodePrefix_eq_iff {bytes : List UInt8} {text : List Char} :
    decodePrefix bytes = text ↔ ∃ rest, bytes = encode text ++ rest ∧ decodeChar rest = none :=
  decodePrefixFuel_eq_iff (Nat.le_refl _) text

@[simp] theorem decodePrefix_nil : decodePrefix [] = [] := rfl

theorem encode_decodePrefix_isPrefix (bytes : List UInt8) :
    encode (decodePrefix bytes) <+: bytes := by
  obtain ⟨rest, hrest, -⟩ := decodePrefix_eq_iff.mp (rfl : decodePrefix bytes = decodePrefix bytes)
  exact ⟨rest, hrest.symm⟩

/-- A text in front of other bytes is read whole before they are looked at. -/
theorem decodePrefix_encode_append (text : List Char) (rest : List UInt8) :
    decodePrefix (encode text ++ rest) = text ++ decodePrefix rest := by
  obtain ⟨tail, htail, hnone⟩ := decodePrefix_eq_iff.mp (rfl : decodePrefix rest = decodePrefix rest)
  rw [decodePrefix_eq_iff]
  refine ⟨tail, ?_, hnone⟩
  rw [encode_append, List.append_assoc, ← htail]

@[simp] theorem decodePrefix_encode (text : List Char) : decodePrefix (encode text) = text := by
  simpa using decodePrefix_encode_append text []

/-- More bytes never change a character already read. -/
theorem decodePrefix_mono {bytes more : List UInt8} (h : bytes <+: more) :
    decodePrefix bytes <+: decodePrefix more := by
  obtain ⟨extra, rfl⟩ := h
  obtain ⟨rest, hrest, -⟩ := decodePrefix_eq_iff.mp (rfl : decodePrefix bytes = decodePrefix bytes)
  refine ⟨decodePrefix (rest ++ extra), ?_⟩
  rw [← decodePrefix_encode_append, ← List.append_assoc, ← hrest]

-- ---------------------------------------------------------------------------
-- Unfinished characters
-- ---------------------------------------------------------------------------

/-- The first bytes of a character, short of its last. -/
def Unfinished (tail : List UInt8) : Prop :=
  ∃ c : Char, tail <+: String.utf8EncodeChar c ∧ tail.length < c.utf8Size

theorem Unfinished.nil : Unfinished [] :=
  ⟨'a', List.nil_prefix, 'a'.utf8Size_pos⟩

theorem Unfinished.length_le {tail : List UInt8} (h : Unfinished tail) : tail.length ≤ 3 := by
  obtain ⟨c, -, hlt⟩ := h
  have hsize := c.utf8Size_le_four
  omega

/-- No character is the beginning of another. -/
theorem Unfinished.decodeChar_eq_none {tail : List UInt8} (h : Unfinished tail) :
    decodeChar tail = none := by
  obtain ⟨c, ⟨missing, hc⟩, hlt⟩ := h
  cases hchar : decodeChar tail with
  | none => rfl
  | some p =>
    obtain ⟨d, rest⟩ := p
    have htail := decodeChar_eq_some.mp hchar
    have hsame : String.utf8EncodeChar c ++ [] = String.utf8EncodeChar d ++ (rest ++ missing) := by
      rw [List.append_nil, ← hc, htail, List.append_assoc]
    have hread := decodeChar_encode c []
    rw [hsame, decodeChar_encode] at hread
    obtain ⟨rfl, hrest⟩ := Prod.mk.inj (Option.some.inj hread)
    have hlen := congrArg List.length htail
    rw [List.length_append, String.length_utf8EncodeChar] at hlen
    omega

/-- The beginnings of texts are the byte strings that are read up to an unfinished
character. -/
theorem prefix_encode_iff {bytes : List UInt8} :
    (∃ whole, bytes <+: encode whole) ↔
      ∃ tail, bytes = encode (decodePrefix bytes) ++ tail ∧ Unfinished tail := by
  constructor
  · rintro ⟨whole, h⟩
    induction whole generalizing bytes with
    | nil =>
      obtain rfl := List.prefix_nil.mp h
      exact ⟨[], rfl, Unfinished.nil⟩
    | cons c cs ih =>
      rw [encode_cons] at h
      by_cases hlt : bytes.length < c.utf8Size
      · -- the first character is not complete
        have hprefix : bytes <+: String.utf8EncodeChar c :=
          List.prefix_of_prefix_length_le h (List.prefix_append _ _)
            (by rw [String.length_utf8EncodeChar]; omega)
        have hunfinished : Unfinished bytes := ⟨c, hprefix, hlt⟩
        have hread : decodePrefix bytes = [] :=
          decodePrefix_eq_iff.mpr ⟨bytes, rfl, hunfinished.decodeChar_eq_none⟩
        exact ⟨bytes, by rw [hread]; rfl, hunfinished⟩
      · have hprefix : String.utf8EncodeChar c <+: bytes :=
          List.prefix_of_prefix_length_le (List.prefix_append _ _) h
            (by rw [String.length_utf8EncodeChar]; omega)
        obtain ⟨later, rfl⟩ := hprefix
        obtain ⟨tail, hlater, hunfinished⟩ := ih ((List.prefix_append_right_inj _).mp h)
        have hread : decodePrefix (String.utf8EncodeChar c ++ later) = c :: decodePrefix later := by
          have happend := decodePrefix_encode_append [c] later
          rwa [encode_cons, encode_nil, List.append_nil] at happend
        refine ⟨tail, ?_, hunfinished⟩
        rw [hread, encode_cons, List.append_assoc, ← hlater]
  · rintro ⟨tail, hbytes, c, hprefix, -⟩
    refine ⟨decodePrefix bytes ++ [c], ?_⟩
    rw [encode_append, encode_cons, encode_nil, List.append_nil]
    nth_rewrite 1 [hbytes]
    exact (List.prefix_append_right_inj _).mpr hprefix

-- ---------------------------------------------------------------------------
-- Characters among bytes
-- ---------------------------------------------------------------------------

/-- The bytes of a text that lacks a character stop before the bytes of that character,
because no character begins inside another. -/
theorem length_encode_le_of_fresh {d : Char} {text : List Char} (hd : d ∉ text)
    {before after : List UInt8} (h : encode text <+: before ++ (String.utf8EncodeChar d ++ after)) :
    (encode text).length ≤ before.length := by
  induction text generalizing before with
  | nil => exact Nat.zero_le _
  | cons c cs ih =>
    rw [encode_cons] at h
    have hc : String.utf8EncodeChar c <+: before ++ (String.utf8EncodeChar d ++ after) :=
      (List.prefix_append _ _).trans h
    by_cases hle : c.utf8Size ≤ before.length
    · obtain ⟨later, rfl⟩ : String.utf8EncodeChar c <+: before :=
        List.prefix_of_prefix_length_le hc (List.prefix_append _ _)
          (by rw [String.length_utf8EncodeChar]; exact hle)
      rw [List.append_assoc] at h
      have hcs := ih (fun hmem => hd (List.mem_cons_of_mem c hmem))
        ((List.prefix_append_right_inj _).mp h)
      rw [encode_cons, List.length_append, List.length_append]
      exact Nat.add_le_add_left hcs _
    · -- the first byte of `d` would be a byte of `c`
      have hin : before.length < (String.utf8EncodeChar c).length := by
        rw [String.length_utf8EncodeChar]
        omega
      have hout : 0 < (String.utf8EncodeChar d).length := by
        rw [String.length_utf8EncodeChar]
        exact d.utf8Size_pos
      have hsame : (String.utf8EncodeChar c)[before.length] = (String.utf8EncodeChar d)[0] := by
        have hget := hc.getElem hin
        rw [hget, List.getElem_append_right (Nat.le_refl _)]
        simp only [Nat.sub_self]
        exact List.getElem_append_left hout
      have hfirst : (String.utf8EncodeChar c)[before.length].IsUTF8FirstByte := by
        rw [hsame]
        exact UInt8.isUTF8FirstByte_getElem_utf8EncodeChar.mpr rfl
      obtain rfl := List.length_eq_zero_iff.mp
        (UInt8.isUTF8FirstByte_getElem_utf8EncodeChar.mp hfirst)
      obtain ⟨tail, htail⟩ := h
      have hread := decodeChar_encode d after
      rw [List.nil_append] at htail
      rw [← htail, List.append_assoc, decodeChar_encode] at hread
      obtain ⟨rfl, -⟩ := Prod.mk.inj (Option.some.inj hread)
      exact absurd List.mem_cons_self hd

/-! ## The strict decoder -/

/-- `from_utf8`: the text of a byte string that is UTF-8 to its end. -/
def fromUtf8 (bytes : List UInt8) : Option (List Char) :=
  if encode (decodePrefix bytes) = bytes then some (decodePrefix bytes) else none

/-- `valid_up_to`: where the strict decoder's error places the first bad byte. -/
def validUpTo (bytes : List UInt8) : Nat := (encode (decodePrefix bytes)).length

theorem fromUtf8_eq_some {bytes : List UInt8} {text : List Char} :
    fromUtf8 bytes = some text ↔ bytes = encode text := by
  unfold fromUtf8
  constructor
  · intro h
    split at h
    · rename_i henc
      rw [← Option.some.inj h, henc]
    · cases h
  · rintro rfl
    rw [decodePrefix_encode, if_pos rfl]

@[simp] theorem fromUtf8_encode (text : List Char) : fromUtf8 (encode text) = some text :=
  fromUtf8_eq_some.mpr rfl

/-- Cutting a byte string at `validUpTo` leaves exactly its readable prefix. -/
theorem fromUtf8_take_validUpTo (bytes : List UInt8) :
    fromUtf8 (bytes.take (validUpTo bytes)) = some (decodePrefix bytes) := by
  rw [fromUtf8_eq_some, validUpTo]
  exact List.prefix_iff_eq_take.mp (encode_decodePrefix_isPrefix bytes) |>.symm

end Utf8

end Foundation

import CamelidEnterprise.Foundation.Utf8

/-!
# Lossy UTF-8

The decoders that never fail: where the bytes start with no character, they put one
`replacement` in place of some of them and go on behind those. How many that is, is what
they differ in: as many as could have begun a character, or the three of a surrogate.

Whatever it is, a text without replacements is read from its own bytes and from no others
(`lossy_eq_iff`), and so is the start of a text (`isPrefix_lossy_iff`).
-/

namespace Foundation

namespace Utf8

/-- What stands for bytes that are no character. -/
def replacement : Char := Char.ofNat 0xFFFD

def isContinuation (byte : UInt8) : Bool := 0x80 ≤ byte && byte ≤ 0xBF

/-- The second bytes that may follow a lead byte of three or four. -/
def isSecond (lead second : UInt8) : Bool :=
  if lead = 0xE0 then 0xA0 ≤ second && second ≤ 0xBF
  else if lead = 0xED then 0x80 ≤ second && second ≤ 0x9F
  else if lead = 0xF0 then 0x90 ≤ second && second ≤ 0xBF
  else if lead = 0xF4 then 0x80 ≤ second && second ≤ 0x8F
  else (0xE1 ≤ lead && lead ≤ 0xF3) && isContinuation second

/-- How many bytes one replacement stands for, where no character begins. -/
def invalidLength : List UInt8 → Nat
  | lead :: second :: rest =>
    if isSecond lead second then
      match rest with
      | third :: _ => if 0xF0 ≤ lead && isContinuation third then 3 else 2
      | [] => 2
    else 1
  | _ => 1

/-- `lossy` with a bound on the number of characters. -/
def lossyFuel (invalid : List UInt8 → Nat) : Nat → List UInt8 → List Char
  | 0, _ => []
  | fuel + 1, bytes =>
    match decodeChar bytes with
    | some (c, rest) => c :: lossyFuel invalid fuel rest
    | none =>
      match bytes with
      | [] => []
      | _ :: _ => replacement :: lossyFuel invalid fuel (bytes.drop (invalid bytes))

/-- The characters of the bytes, with a replacement for every `invalid bytes` of them. -/
def lossy (invalid : List UInt8 → Nat) (bytes : List UInt8) : List Char :=
  lossyFuel invalid bytes.length bytes

/-- `String::from_utf8_lossy` -/
def fromUtf8Lossy : List UInt8 → List Char := lossy invalidLength

/-- Of the encoding in which a surrogate has three bytes like every character around it. -/
def fromWtf8Lossy : List UInt8 → List Char := lossy fun _ => 3

/-- A character is read from its own bytes only. -/
theorem utf8EncodeChar_append_isPrefix {c d : Char} {more rest : List UInt8} :
    String.utf8EncodeChar c ++ more <+: String.utf8EncodeChar d ++ rest ↔ c = d ∧ more <+: rest := by
  constructor
  · rintro ⟨tail, htail⟩
    rw [List.append_assoc] at htail
    have hread := decodeChar_encode c (more ++ tail)
    rw [htail, decodeChar_encode] at hread
    obtain ⟨rfl, rfl⟩ := Prod.mk.inj (Option.some.inj hread)
    exact ⟨rfl, tail, rfl⟩
  · rintro ⟨rfl, hprefix⟩
    exact (List.prefix_append_right_inj _).mpr hprefix

theorem decodeChar_length_lt {bytes rest : List UInt8} {c : Char}
    (h : decodeChar bytes = some (c, rest)) : rest.length < bytes.length := by
  rw [decodeChar_eq_some.mp h, List.length_append, String.length_utf8EncodeChar]
  have := c.utf8Size_pos
  omega

theorem not_encode_cons_isPrefix {bytes : List UInt8} (h : decodeChar bytes = none) (c : Char)
    (text : List Char) : ¬encode (c :: text) <+: bytes := by
  rintro ⟨tail, rfl⟩
  rw [encode_cons, List.append_assoc, decodeChar_encode] at h
  exact absurd h (by simp)

variable {invalid : List UInt8 → Nat}

theorem isPrefix_lossyFuel_iff {text : List Char} (hplain : replacement ∉ text) {fuel : Nat}
    {bytes : List UInt8} (hfuel : bytes.length ≤ fuel) :
    text <+: lossyFuel invalid fuel bytes ↔ encode text <+: bytes := by
  induction text generalizing fuel bytes with
  | nil => simp
  | cons c text ih =>
    rw [List.mem_cons, not_or] at hplain
    rcases fuel with _ | fuel
    · obtain rfl := List.length_eq_zero_iff.mp (Nat.le_zero.mp hfuel)
      have hnot := not_encode_cons_isPrefix decodeChar_nil c text
      exact ⟨fun h => absurd (List.prefix_nil.mp h) (by simp), fun h => absurd h hnot⟩
    unfold lossyFuel
    rcases hread : decodeChar bytes with _ | ⟨d, rest⟩
    · have hnot := not_encode_cons_isPrefix hread c text
      cases bytes with
      | nil => exact ⟨fun h => absurd (List.prefix_nil.mp h) (by simp), fun h => absurd h hnot⟩
      | cons byte bytes =>
        simp only [List.cons_prefix_cons]
        exact ⟨fun h => absurd h.1.symm hplain.1, fun h => absurd h hnot⟩
    · have hlt := decodeChar_length_lt hread
      rw [decodeChar_eq_some.mp hread, encode_cons, utf8EncodeChar_append_isPrefix,
        ← ih hplain.2 (show rest.length ≤ fuel by omega)]
      exact List.cons_prefix_cons

/-- Reading starts with a text that has no replacement just where the bytes start with its own. -/
theorem isPrefix_lossy_iff {text : List Char} (hplain : replacement ∉ text)
    (bytes : List UInt8) : text <+: lossy invalid bytes ↔ encode text <+: bytes :=
  isPrefix_lossyFuel_iff hplain (Nat.le_refl _)

theorem lossyFuel_eq_iff {text : List Char} (hplain : replacement ∉ text) {fuel : Nat}
    {bytes : List UInt8} (hfuel : bytes.length ≤ fuel) :
    lossyFuel invalid fuel bytes = text ↔ bytes = encode text := by
  induction text generalizing fuel bytes with
  | nil =>
    rcases fuel with _ | fuel
    · obtain rfl := List.length_eq_zero_iff.mp (Nat.le_zero.mp hfuel)
      simp [lossyFuel]
    unfold lossyFuel
    rcases hread : decodeChar bytes with _ | ⟨d, rest⟩
    · cases bytes with
      | nil => simp
      | cons byte bytes => simp
    · have hlt := decodeChar_length_lt hread
      have hne : bytes ≠ [] := by
        rintro rfl
        simp at hlt
      simp [hne]
  | cons c text ih =>
    rw [List.mem_cons, not_or] at hplain
    rcases fuel with _ | fuel
    · obtain rfl := List.length_eq_zero_iff.mp (Nat.le_zero.mp hfuel)
      have hnot := not_encode_cons_isPrefix decodeChar_nil c text
      simp only [lossyFuel, reduceCtorEq, false_iff]
      exact fun h => hnot (h ▸ List.prefix_rfl)
    unfold lossyFuel
    rcases hread : decodeChar bytes with _ | ⟨d, rest⟩
    · have hnot : bytes ≠ encode (c :: text) := fun h =>
        not_encode_cons_isPrefix hread c text (h ▸ List.prefix_rfl)
      cases bytes with
      | nil => exact ⟨fun h => absurd h (by simp), fun h => absurd h hnot⟩
      | cons byte bytes =>
        simp only [List.cons.injEq]
        exact ⟨fun h => absurd h.1 hplain.1, fun h => absurd h hnot⟩
    · have hlt := decodeChar_length_lt hread
      have hbytes := decodeChar_eq_some.mp hread
      simp only [List.cons.injEq]
      rw [ih hplain.2 (show rest.length ≤ fuel by omega), encode_cons]
      constructor
      · rintro ⟨rfl, rfl⟩
        exact hbytes
      · intro h
        have hsame : decodeChar bytes = some (c, encode text) := by rw [h, decodeChar_encode]
        obtain ⟨rfl, rfl⟩ := Prod.mk.inj (Option.some.inj (hread.symm.trans hsame))
        exact ⟨rfl, rfl⟩

/-- A text that has no replacement is read from its own bytes only. -/
theorem lossy_eq_iff {text : List Char} (hplain : replacement ∉ text) (bytes : List UInt8) :
    lossy invalid bytes = text ↔ bytes = encode text :=
  lossyFuel_eq_iff hplain (Nat.le_refl _)

-- ---------------------------------------------------------------------------
-- ASCII names
-- ---------------------------------------------------------------------------

/-- The encoding of a character past ASCII has no byte of ASCII. -/
theorem utf8EncodeChar_of_ascii {c : Char} {byte : UInt8} (hmem : byte ∈ String.utf8EncodeChar c)
    (hascii : byte < 128) : c.toNat < 128 ∧ String.utf8EncodeChar c = [byte] := by
  unfold String.utf8EncodeChar at hmem ⊢
  rw [UInt8.lt_iff_toNat_lt] at hascii
  dsimp only at hmem ⊢
  split at hmem
  · rename_i hone
    rw [if_pos hone, List.mem_singleton.mp hmem]
    exact ⟨by show c.val.toNat < 128; omega, rfl⟩
  · exfalso
    split at hmem
    · simp only [List.mem_cons, List.not_mem_nil, or_false] at hmem
      rcases hmem with rfl | rfl
      all_goals
        simp only [UInt8.toNat_ofNat', UInt8.reduceToNat] at hascii
        omega
    · split at hmem
      · simp only [List.mem_cons, List.not_mem_nil, or_false] at hmem
        rcases hmem with rfl | rfl | rfl
        all_goals
          simp only [UInt8.toNat_ofNat', UInt8.reduceToNat] at hascii
          omega
      · simp only [List.mem_cons, List.not_mem_nil, or_false] at hmem
        rcases hmem with rfl | rfl | rfl | rfl
        all_goals
          simp only [UInt8.toNat_ofNat', UInt8.reduceToNat] at hascii
          omega

/-- A character of ASCII is one byte. -/
theorem utf8EncodeChar_ascii {c : Char} (hascii : c.toNat < 128) :
    ∃ byte, byte < 128 ∧ String.utf8EncodeChar c = [byte] := by
  have hval : c.val.toNat < 128 := hascii
  refine ⟨UInt8.ofNat c.val.toNat, ?_, ?_⟩
  · rw [UInt8.lt_iff_toNat_lt, UInt8.toNat_ofNat']
    exact Nat.lt_of_le_of_lt (Nat.mod_le _ _) hval
  · unfold String.utf8EncodeChar
    dsimp only
    rw [if_pos (by omega)]

theorem isPrefix_of_encode {front text : List Char} (h : encode front <+: encode text) :
    front <+: text := by
  obtain ⟨rest, hrest⟩ := h
  have hread := decodePrefix_encode_append front rest
  rw [hrest, decodePrefix_encode] at hread
  exact ⟨_, hread.symm⟩

/-- ASCII bytes inside the bytes of a text are the characters inside it. -/
theorem infix_of_encode {needle text : List Char} (hne : needle ≠ [])
    (hascii : ∀ c ∈ needle, c.toNat < 128) (h : encode needle <:+: encode text) :
    needle <:+: text := by
  induction text with
  | nil =>
    have hread := congrArg decodePrefix (List.infix_nil.mp h)
    rw [decodePrefix_encode, decodePrefix_nil] at hread
    exact absurd hread hne
  | cons c text ih =>
    obtain ⟨front, back, hcut⟩ := h
    rw [encode_cons, List.append_assoc] at hcut
    rcases List.append_eq_append_iff.mp hcut with ⟨d, hfirst, htail⟩ | ⟨d, -, htail⟩
    · cases d with
      | nil => exact List.infix_cons (ih ⟨[], back, htail⟩)
      | cons byte d =>
        obtain ⟨first, needle, rfl⟩ := List.exists_cons_of_ne_nil hne
        obtain ⟨byte', hlt, hsingle⟩ := utf8EncodeChar_ascii (hascii first List.mem_cons_self)
        have hbytes := htail
        rw [encode_cons, hsingle, List.cons_append, List.cons_append, List.cons_append] at htail
        obtain ⟨rfl, -⟩ := List.cons.inj htail
        -- a byte of ASCII is a character of its own
        have hmem : byte' ∈ String.utf8EncodeChar c := by
          rw [hfirst]
          exact List.mem_append_right _ List.mem_cons_self
        have hown := (utf8EncodeChar_of_ascii hmem hlt).2
        rw [hown] at hfirst
        obtain ⟨rfl, hd⟩ : front = [] ∧ d = [] := by
          cases front with
          | nil => exact ⟨rfl, (List.cons.inj hfirst).2.symm⟩
          | cons x front => simp at hfirst
        refine (isPrefix_of_encode ⟨back, ?_⟩).isInfix
        rw [hbytes, hd, encode_cons, hown]
    · exact List.infix_cons (ih ⟨d, back, by rw [htail, List.append_assoc]⟩)

/-- ASCII bytes are the encoding of the characters they are the numbers of. -/
theorem exists_encode_of_ascii {bytes : List UInt8} (hascii : ∀ byte ∈ bytes, byte < 128) :
    ∃ text, encode text = bytes := by
  refine ⟨bytes.map fun byte => Char.ofNat byte.toNat, ?_⟩
  unfold encode
  rw [List.flatMap_map]
  have hsingle : ∀ byte ∈ bytes, String.utf8EncodeChar (Char.ofNat byte.toNat) = [byte] := by
    intro byte hmem
    have hlt : byte.toNat < 128 := UInt8.lt_iff_toNat_lt.mp (hascii byte hmem)
    have hnumber : (Char.ofNat byte.toNat).val.toNat = byte.toNat := by
      unfold Char.ofNat
      rw [dif_pos (.inl (by omega))]
      rfl
    unfold String.utf8EncodeChar
    dsimp only
    rw [hnumber, if_pos (by omega), UInt8.ofNat_toNat]
  rw [List.flatMap_congr hsingle, List.flatMap_singleton']

theorem replacement_not_mem_of_ascii {text : List Char}
    (hascii : ∀ byte ∈ encode text, byte < 128) : replacement ∉ text := by
  intro hmem
  obtain ⟨byte, hbyte⟩ : ∃ byte, byte ∈ String.utf8EncodeChar replacement := ⟨_, List.mem_cons_self⟩
  have hlt := hascii byte (List.mem_flatMap.mpr ⟨replacement, hmem, hbyte⟩)
  exact absurd (utf8EncodeChar_of_ascii hbyte hlt).1 (by decide)

/-- ASCII bytes in front of a text are the characters in front of it. -/
theorem exists_isPrefix_of_ascii {bytes : List UInt8} (hascii : ∀ byte ∈ bytes, byte < 128)
    {text : List Char} (hfront : bytes <+: encode text) :
    ∃ front, front <+: text ∧ encode front = bytes := by
  induction bytes generalizing text with
  | nil => exact ⟨[], List.nil_prefix, rfl⟩
  | cons byte bytes ih =>
    cases text with
    | nil => exact absurd (List.prefix_nil.mp hfront) (by simp)
    | cons c text =>
      have hbyte := hascii byte List.mem_cons_self
      have hhead : byte ∈ String.utf8EncodeChar c := by
        rw [encode_cons] at hfront
        cases hencoded : String.utf8EncodeChar c with
        | nil =>
          have := String.length_utf8EncodeChar c
          rw [hencoded, List.length_nil] at this
          exact absurd this.symm (Nat.pos_iff_ne_zero.mp c.utf8Size_pos)
        | cons first more =>
          rw [hencoded, List.cons_append, List.cons_prefix_cons] at hfront
          rw [hfront.1]
          exact List.mem_cons_self
      have hsingle := (utf8EncodeChar_of_ascii hhead hbyte).2
      rw [encode_cons, hsingle, List.singleton_append, List.cons_prefix_cons] at hfront
      obtain ⟨front, hprefixed, hencode⟩ := ih (fun b hb => hascii b (List.mem_cons_of_mem _ hb))
        hfront.2
      refine ⟨c :: front, List.cons_prefix_cons.mpr ⟨rfl, hprefixed⟩, ?_⟩
      rw [encode_cons, hsingle, hencode, List.singleton_append]

section Folded

variable {fold : UInt8 → UInt8} {target : List UInt8}

theorem map_encode_lossy_eq_iff (hfold : ∀ byte, fold byte < 128 → byte < 128)
    (htarget : ∀ byte ∈ target, byte < 128) (bytes : List UInt8) :
    (encode (lossy invalid bytes)).map fold = target ↔ bytes.map fold = target := by
  have hascii : ∀ {source : List UInt8}, source.map fold = target → ∀ byte ∈ source, byte < 128 :=
    fun h byte hmem => hfold byte (htarget _ (h ▸ List.mem_map_of_mem hmem))
  constructor
  · intro h
    rwa [(lossy_eq_iff (replacement_not_mem_of_ascii (hascii h)) bytes).mp rfl]
  · intro h
    obtain ⟨text, rfl⟩ := exists_encode_of_ascii (hascii h)
    rwa [(lossy_eq_iff (replacement_not_mem_of_ascii (hascii h)) (encode text)).mpr rfl]

theorem isPrefix_map_encode_lossy_iff (hfold : ∀ byte, fold byte < 128 → byte < 128)
    (htarget : ∀ byte ∈ target, byte < 128) (bytes : List UInt8) :
    target <+: (encode (lossy invalid bytes)).map fold ↔ target <+: bytes.map fold := by
  constructor
  · rintro ⟨rest, hrest⟩
    obtain ⟨front, back, hsplit, hfront, -⟩ := List.map_eq_append_iff.mp hrest.symm
    have hascii : ∀ byte ∈ front, byte < 128 := fun byte hmem =>
      hfold byte (htarget _ (hfront ▸ List.mem_map_of_mem hmem))
    obtain ⟨text, htext, rfl⟩ := exists_isPrefix_of_ascii hascii ⟨back, hsplit.symm⟩
    rw [← hfront]
    exact ((isPrefix_lossy_iff (replacement_not_mem_of_ascii hascii) bytes).mp htext).map fold
  · rintro ⟨rest, hrest⟩
    obtain ⟨front, back, hsplit, hfront, -⟩ := List.map_eq_append_iff.mp hrest.symm
    have hascii : ∀ byte ∈ front, byte < 128 := fun byte hmem =>
      hfold byte (htarget _ (hfront ▸ List.mem_map_of_mem hmem))
    obtain ⟨text, rfl⟩ := exists_encode_of_ascii hascii
    obtain ⟨tail, htail⟩ : text <+: lossy invalid bytes :=
      (isPrefix_lossy_iff (replacement_not_mem_of_ascii hascii) bytes).mpr ⟨back, hsplit.symm⟩
    rw [← hfront, ← htail, encode_append, List.map_append]
    exact List.prefix_append _ _

end Folded

/-- Three bytes that begin a character of four are one replacement; a lead byte and a stray one
are two. -/
example : fromUtf8Lossy [0xF0, 0x9F, 0x98, 65, 0xC3, 0x28, 0xE0, 0x80] =
    [replacement, 'A', replacement, '(', replacement, replacement] := by
  decide +kernel

end Utf8

end Foundation

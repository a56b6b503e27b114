import Mathlib.Tactic.IntervalCases
import CamelidEnterprise.Engine.KQuants
import CamelidEnterprise.Foundation.BitLayout
import CamelidEnterprise.Foundation.Bits

/-!
# Camelid Enterprise — what a K-quant block says

The fields of a block are the bits of its float scale and min, the scale and the min of
each sub-block, and the code of each of its 256 elements. For every format there is a
table of where the bits of each field are; `unpack_layout` says that the shifts and masks
of the source read exactly these, and `tiles` that no bit is read twice and none is left
out. So a block and its fields determine each other (`bijOn_fields`).
-/

namespace CamelidEnterprise

open Foundation Foundation.Buffer Foundation.Bits

-- ---------------------------------------------------------------------------
-- Fields
-- ---------------------------------------------------------------------------

/-- The fields of a block with `n` scaled sub-blocks. -/
inductive ScaleField (n : Nat)
  | scaleBits
  | scale (subBlock : Fin n)
  | code (element : Fin 256)

/-- The further fields of a block whose sub-blocks have a min. -/
inductive MinField (n : Nat)
  | minBits
  | min (subBlock : Fin n)

variable {n : Nat}

namespace ScaleField

def equivSum (n : Nat) : ScaleField n ≃ Unit ⊕ Fin n ⊕ Fin 256 where
  toFun
    | .scaleBits => .inl ()
    | .scale k => .inr (.inl k)
    | .code i => .inr (.inr i)
  invFun
    | .inl () => .scaleBits
    | .inr (.inl k) => .scale k
    | .inr (.inr i) => .code i
  left_inv field := by cases field <;> rfl
  right_inv field := by rcases field with _ | _ | _ <;> rfl

instance : Fintype (ScaleField n) := .ofEquiv _ (equivSum n).symm

theorem sum_eq {f : ScaleField n → Nat} {a b c : Nat} (ha : f .scaleBits = a)
    (hb : ∀ k, f (.scale k) = b) (hc : ∀ i, f (.code i) = c) : ∑ x, f x = a + (n * b + 256 * c) := by
  rw [← (equivSum n).symm.sum_comp f, Fintype.sum_sum_type, Fintype.sum_sum_type, Fintype.sum_unique]
  have hscale : ∑ k, f ((equivSum n).symm (.inr (.inl k))) = n * b :=
    (Finset.sum_const_nat fun k _ => hb k).trans (by rw [Finset.card_univ, Fintype.card_fin])
  have hcode : ∑ i, f ((equivSum n).symm (.inr (.inr i))) = 256 * c :=
    (Finset.sum_const_nat fun i _ => hc i).trans (by rw [Finset.card_univ, Fintype.card_fin])
  rw [hscale, hcode, ← ha]
  rfl

/-- The fields, from the bits of the float and the numbers at each index. -/
def values (scaleBits : UInt16) (scale code : Nat → Int) : ScaleField n → Int
  | .scaleBits => scaleBits.toNat
  | .scale k => scale k
  | .code i => code i

def ranges (scale code : Set Int) : ScaleField n → Set Int
  | .scaleBits => Set.Ico 0 65536
  | .scale _ => scale
  | .code _ => code

end ScaleField

namespace MinField

def equivSum (n : Nat) : MinField n ≃ Unit ⊕ Fin n where
  toFun
    | .minBits => .inl ()
    | .min k => .inr k
  invFun
    | .inl () => .minBits
    | .inr k => .min k
  left_inv field := by cases field <;> rfl
  right_inv field := by rcases field with _ | _ <;> rfl

instance : Fintype (MinField n) := .ofEquiv _ (equivSum n).symm

theorem sum_eq {f : MinField n → Nat} {a b : Nat} (ha : f .minBits = a) (hb : ∀ k, f (.min k) = b) :
    ∑ x, f x = a + n * b := by
  rw [← (equivSum n).symm.sum_comp f, Fintype.sum_sum_type, Fintype.sum_unique]
  have hmin : ∑ k, f ((equivSum n).symm (.inr k)) = n * b :=
    (Finset.sum_const_nat fun k _ => hb k).trans (by rw [Finset.card_univ, Fintype.card_fin])
  rw [hmin, ← ha]
  rfl

def values (minBits : UInt16) (min : Nat → Int) : MinField n → Int
  | .minBits => minBits.toNat
  | .min k => min k

def ranges (min : Set Int) : MinField n → Set Int
  | .minBits => Set.Ico 0 65536
  | .min _ => min

end MinField

/-- A layout that tiles the bytes, and reads the fields from them. -/
theorem bijOn_of_layout {Field : Type} [Fintype Field] {size : Nat} {layout : BitLayout Field}
    {fields : Vector UInt8 size → Field → Int} {ranges : Field → Set Int}
    (htiles : layout.Tiles size) (hread : ∀ bytes, layout.unpack bytes = fields bytes)
    (hrange : ∀ field, layout.range field = ranges field) :
    Set.BijOn fields Set.univ {values | ∀ field, values field ∈ ranges field} := by
  have hbij := layout.bijOn_unpack htiles
  simp only [hrange] at hbij
  exact hbij.congr fun bytes _ => hread bytes

-- ---------------------------------------------------------------------------
-- Pieces
-- ---------------------------------------------------------------------------

/-- The bits of a little-endian `u16`. -/
def wordPieces (byte : Nat) : List Piece := [⟨byte, 0, 8⟩, ⟨byte + 1, 0, 8⟩]

section Pieces

variable {size : Nat} (bytes : Vector UInt8 size)

theorem readAll_wordPieces (byte : Nat) :
    Piece.readAll bytes (wordPieces byte) = (u16At bytes byte).toNat := by
  have hlow := (peek bytes byte).toNat_lt
  have hhigh := (peek bytes (byte + 1)).toNat_lt
  unfold wordPieces u16At Gguf.Cursor.fromLeBytes
  simp only [Piece.readAll, Piece.read, List.foldr_cons, List.foldr_nil, UInt16.toNat_ofNat']
  omega

theorem readAll_one (piece : Piece) : Piece.readAll bytes [piece] = piece.read bytes := by
  simp [Piece.readAll]

theorem readAll_two (low high : Piece) :
    Piece.readAll bytes [low, high] = 2 ^ low.width * high.read bytes + low.read bytes := by
  simp [Piece.readAll]

end Pieces

/-- The bytes of a word are pieces of its field. -/
theorem mem_wordPieces {byte start : Nat} (h : start ≤ byte) (h' : byte < start + 2) :
    ⟨byte, 0, 8⟩ ∈ wordPieces start := by
  unfold wordPieces
  obtain rfl | rfl : byte = start ∨ byte = start + 1 := by omega
  · exact List.mem_cons_self
  · exact List.mem_cons_of_mem _ (List.mem_singleton_self _)

theorem wordPieces_inside {start size : Nat} (h : start + 1 < size) :
    ∀ piece ∈ wordPieces start, piece.byte < size ∧ piece.shift + piece.width ≤ 8 := by
  unfold wordPieces
  rw [List.forall_mem_cons, List.forall_mem_singleton]
  exact ⟨⟨Nat.lt_of_succ_lt h, le_rfl⟩, h, le_rfl⟩

/-- The nibble of the element that comes first of the two in a byte, or of the other. -/
def nibble (byte : UInt8) (first : Prop) [Decidable first] : UInt8 :=
  if first then byte &&& 0x0f else byte >>> 4

theorem toNat_nibble (byte : UInt8) (first : Prop) [Decidable first] :
    (nibble byte first).toNat = byte.toNat / 2 ^ (if first then 0 else 4) % 2 ^ 4 := by
  have hlt := byte.toNat_lt
  unfold nibble
  by_cases h : first
  · rw [if_pos h, if_pos h, @toNat_and_mask _ _ 4 rfl, Nat.pow_zero, Nat.div_one]
  · rw [if_neg h, if_neg h, @toNat_shiftRight _ _ 4 rfl (by decide)]
    omega

theorem toNat_nibble_lt (byte : UInt8) (first : Prop) [Decidable first] :
    (nibble byte first).toNat < 2 ^ 4 := by
  rw [toNat_nibble]
  exact Nat.mod_lt _ (by decide)

/-- What depends on one bit, by the number the bit is. -/
theorem ite_testBit (m k : Nat) (a b : Int) :
    (if m.testBit k then a else b) = b + (m / 2 ^ k % 2 : Nat) * (a - b) := by
  rw [Nat.testBit_eq_decide_div_mod_eq]
  rcases Nat.mod_two_eq_zero_or_one (m / 2 ^ k) with h | h
  · rw [h]
    simp
  · rw [h]
    simp

/-- A shift of at most 7, as a word. -/
theorem toNat_shift {k : Nat} (h : k < 8) : (UInt8.ofNat k).toNat = k := by
  rw [UInt8.toNat_ofNat', Nat.mod_eq_of_lt (by omega)]

-- ---------------------------------------------------------------------------
-- Q2_K
-- ---------------------------------------------------------------------------

namespace Q2KBlock

def scale (block : Q2KBlock) (k : Nat) : Int := (peek block.scales k &&& 0x0f).toNat

def min (block : Q2KBlock) (k : Nat) : Int := (peek block.scales k >>> 4).toNat

def code (block : Q2KBlock) (i : Nat) : Int :=
  ((peek block.values (i / 128 * 32 + i % 32) >>> .ofNat (i % 128 / 32 * 2)) &&& 3).toNat

def fields (block : Q2KBlock) : ScaleField 16 ⊕ MinField 16 → Int :=
  Sum.elim (ScaleField.values block.scaleBits block.scale block.code)
    (MinField.values block.minBits block.min)

def layout : BitLayout (ScaleField 16 ⊕ MinField 16) where
  pieces
    | .inl .scaleBits => wordPieces 80
    | .inl (.scale k) => [⟨k, 0, 4⟩]
    | .inl (.code i) => [⟨16 + (i / 128 * 32 + i % 32), i % 128 / 32 * 2, 2⟩]
    | .inr .minBits => wordPieces 82
    | .inr (.min k) => [⟨k, 4, 4⟩]
  coding _ := .offset 0

theorem unpack_layout (bytes : Vector UInt8 84) :
    layout.unpack bytes = (fromBytes bytes).fields := by
  funext field
  refine (Int.zero_add _).trans ?_
  rcases field with (_ | k | i) | (_ | k)
  · exact congrArg Nat.cast (readAll_wordPieces bytes 80)
  · refine congrArg Nat.cast ((readAll_one bytes _).trans ?_)
    show _ = (peek (slice bytes 0 16) k &&& 0x0f).toNat
    rw [@toNat_and_mask _ _ 4 rfl, peek_slice _ _ k.isLt, Nat.zero_add]
    exact congrArg (· % _) (Nat.div_one _)
  · refine congrArg Nat.cast ((readAll_one bytes _).trans ?_)
    have hshift : i.val % 128 / 32 * 2 < 8 := by omega
    show _ = ((peek (slice bytes 16 64) (i / 128 * 32 + i % 32) >>> _) &&& 3).toNat
    rw [@toNat_shiftRight_and_mask _ _ _ _ 2 rfl (toNat_shift hshift) hshift,
      peek_slice _ _ (by omega)]
    rfl
  · exact congrArg Nat.cast (readAll_wordPieces bytes 82)
  · refine congrArg Nat.cast ((readAll_one bytes _).trans ?_)
    have hlt := (peek bytes k).toNat_lt
    show _ = (peek (slice bytes 0 16) k >>> 4).toNat
    rw [@toNat_shiftRight _ _ 4 rfl (by decide), peek_slice _ _ k.isLt, Nat.zero_add]
    exact Nat.mod_eq_of_lt (by dsimp only; omega)

theorem tiles : layout.Tiles 84 where
  inside := by
    rintro ((_ | k | i) | (_ | k))
    · exact wordPieces_inside (by decide)
    · refine List.forall_mem_singleton.mpr ⟨?_, ?_⟩ <;> dsimp only <;> omega
    · refine List.forall_mem_singleton.mpr ⟨?_, ?_⟩ <;> dsimp only <;> omega
    · exact wordPieces_inside (by decide)
    · refine List.forall_mem_singleton.mpr ⟨?_, ?_⟩ <;> dsimp only <;> omega
  covers := by
    intro byte hbyte bit hbit
    by_cases hscales : byte < 16
    · by_cases hlow : bit < 4
      · exact ⟨.inl (.scale ⟨byte, hscales⟩), _, List.mem_singleton_self _, rfl, Nat.zero_le _, hlow⟩
      · exact ⟨.inr (.min ⟨byte, hscales⟩), _, List.mem_singleton_self _, rfl, not_lt.mp hlow, hbit⟩
    by_cases hvalues : byte < 80
    · refine ⟨.inl (.code ⟨(byte - 16) / 32 * 128 + bit / 2 * 32 + (byte - 16) % 32, by omega⟩), _,
        List.mem_singleton_self _, ?_, ?_, ?_⟩ <;> dsimp only <;> omega
    by_cases hscale : byte < 82
    · exact ⟨.inl .scaleBits, _, mem_wordPieces (by omega) hscale, rfl, Nat.zero_le _, hbit⟩
    · exact ⟨.inr .minBits, _, mem_wordPieces (by omega) hbyte, rfl, Nat.zero_le _, hbit⟩
  count := by
    rw [Fintype.sum_sum_type, ScaleField.sum_eq (a := 16) (b := 4) (c := 2) rfl (fun _ => rfl)
      (fun _ => rfl), MinField.sum_eq (a := 16) (b := 4) rfl (fun _ => rfl)]

theorem bijOn_fields : Set.BijOn (fun bytes => (fromBytes bytes).fields) Set.univ
    {values | ∀ field, values field ∈ Sum.elim
      (ScaleField.ranges (Set.Ico 0 16) (Set.Ico 0 4)) (MinField.ranges (Set.Ico 0 16)) field} := by
  refine bijOn_of_layout tiles unpack_layout ?_
  rintro ((_ | k | i) | (_ | k)) <;> rfl

end Q2KBlock

-- ---------------------------------------------------------------------------
-- Q3_K
-- ---------------------------------------------------------------------------

theorem lane_u32At {size : Nat} (bytes : Vector UInt8 size) (start : Nat) {j : Nat} (hj : j < 4) :
    lane (u32At bytes start) j = (peek bytes (start + j)).toNat := by
  have h0 := (peek bytes start).toNat_lt
  have h1 := (peek bytes (start + 1)).toNat_lt
  have h2 := (peek bytes (start + 2)).toNat_lt
  have h3 := (peek bytes (start + 3)).toNat_lt
  unfold lane u32At Gguf.Cursor.fromLeBytes
  simp only [List.foldr_cons, List.foldr_nil, UInt32.toNat_ofNat']
  obtain rfl | rfl | rfl | rfl : j = 0 ∨ j = 1 ∨ j = 2 ∨ j = 3 := by omega
  · rw [Nat.add_zero start]
    omega
  · omega
  · omega
  · omega

namespace Q3KBlock

theorem lane_auxWord (nibbles tmp : UInt32) {j : Nat} (hj : j < 4) :
    lane (auxWord nibbles tmp) j = 2 ^ 4 * (lane tmp j % 2 ^ 2) + lane nibbles j % 2 ^ 4 :=
  lane_or_shiftLeft _ _ (by decide) (by decide) rfl (by decide) hj

/-- The nibbles of the first eight bytes, the low ones before the high ones, each under two
bits of the other four. -/
theorem toInt_expandedScales (block : Q3KBlock) {k : Nat} (hk : k < 16) :
    (peek block.expandedScales k).toInt =
      ((2 ^ 4 * ((peek block.scales (8 + k % 4)).toNat / 2 ^ (k / 4 * 2) % 2 ^ 2) +
        (peek block.scales (k % 8)).toNat / 2 ^ (k / 8 * 4) % 2 ^ 4 : Nat) : Int) := by
  have hj : k % 4 < 4 := Nat.mod_lt _ (by decide)
  have htmp := lane_u32At block.scales 8 hj
  unfold expandedScales
  dsimp only
  rw [peek_of_lt _ hk, Vector.getElem_ofFn]
  dsimp only
  generalize haux : @peek UInt32 4 _ _ (k / 4) = word
  have hlane : lane word (k % 4) =
      2 ^ 4 * ((peek block.scales (8 + k % 4)).toNat / 2 ^ (k / 4 * 2) % 2 ^ 2) +
        (peek block.scales (k % 8)).toNat / 2 ^ (k / 8 * 4) % 2 ^ 4 := by
    obtain h | h | h | h : k / 4 = 0 ∨ k / 4 = 1 ∨ k / 4 = 2 ∨ k / 4 = 3 := by omega
    -- the four words of `aux` in turn
    · rw [show k / 8 = 0 by omega, show k % 8 = 0 + k % 4 by omega, h]
      rw [h] at haux
      rw [← haux, ← lane_u32At block.scales 0 hj, ← htmp, Nat.zero_mul, Nat.pow_zero, Nat.div_one,
        Nat.div_one]
      exact lane_auxWord _ _ hj
    · rw [show k / 8 = 0 by omega, show k % 8 = 4 + k % 4 by omega, h]
      rw [h] at haux
      rw [← haux, ← lane_u32At block.scales 4 hj, ← htmp, Nat.zero_mul, Nat.pow_zero, Nat.div_one,
        ← lane_shiftRight _ (k % 4) (show (2 : UInt32).toNat = 1 * 2 from rfl) (by decide)]
      exact lane_auxWord _ _ hj
    · rw [show k / 8 = 1 by omega, show k % 8 = 0 + k % 4 by omega, h]
      rw [h] at haux
      rw [← haux, ← lane_u32At block.scales 0 hj, ← htmp,
        ← lane_shiftRight _ (k % 4) (show (4 : UInt32).toNat = 2 * 2 from rfl) (by decide),
        ← lane_shiftRight _ (k % 4) (show (4 : UInt32).toNat = 1 * 4 from rfl) (by decide)]
      exact lane_auxWord _ _ hj
    · rw [show k / 8 = 1 by omega, show k % 8 = 4 + k % 4 by omega, h]
      rw [h] at haux
      rw [← haux, ← lane_u32At block.scales 4 hj, ← htmp,
        ← lane_shiftRight _ (k % 4) (show (6 : UInt32).toNat = 3 * 2 from rfl) (by decide),
        ← lane_shiftRight _ (k % 4) (show (4 : UInt32).toNat = 1 * 4 from rfl) (by decide)]
      exact lane_auxWord _ _ hj
  have hlow : (peek block.scales (k % 8)).toNat / 2 ^ (k / 8 * 4) % 2 ^ 4 < 2 ^ 4 :=
    Nat.mod_lt _ (by decide)
  have hhigh : (peek block.scales (8 + k % 4)).toNat / 2 ^ (k / 4 * 2) % 2 ^ 2 < 2 ^ 2 :=
    Nat.mod_lt _ (by decide)
  have hbyte : (UInt8.ofNat (lane word (k % 4))).toNat = lane word (k % 4) := by
    rw [UInt8.toNat_ofNat', Nat.mod_eq_of_lt (by omega)]
  show (UInt8.ofNat (lane word (k % 4))).toInt8.toInt = _
  rw [toInt_toInt8_of_lt (by omega), hbyte, hlane]

def scale (block : Q3KBlock) (k : Nat) : Int := (peek block.expandedScales k).toInt - 32

theorem scale_bounds (block : Q3KBlock) {k : Nat} (hk : k < 16) :
    -32 ≤ block.scale k ∧ block.scale k < 32 := by
  unfold scale
  rw [block.toInt_expandedScales hk]
  omega

/-- Two low bits; a clear high bit takes 4 away. -/
def code (block : Q3KBlock) (i : Nat) : Int :=
  ((peek block.values (i / 128 * 32 + i % 32) >>> .ofNat (i % 128 / 32 * 2)) &&& 3).toNat -
    if (peek block.highBits (i % 32)).toNat.testBit (i / 32) then 0 else 4

def fields (block : Q3KBlock) : ScaleField 16 → Int :=
  ScaleField.values block.scaleBits block.scale block.code

def layout : BitLayout (ScaleField 16) where
  pieces
    | .scaleBits => wordPieces 108
    | .scale k => [⟨96 + k % 8, k / 8 * 4, 4⟩, ⟨96 + (8 + k % 4), k / 4 * 2, 2⟩]
    | .code i => [⟨32 + (i / 128 * 32 + i % 32), i % 128 / 32 * 2, 2⟩, ⟨i % 32, i / 32, 1⟩]
  coding
    | .scaleBits => .offset 0
    | .scale _ => .offset (-32)
    | .code _ => .offset (-4)

theorem unpack_layout (bytes : Vector UInt8 110) :
    layout.unpack bytes = (fromBytes bytes).fields := by
  funext field
  rcases field with _ | k | i
  · exact (Int.zero_add _).trans (congrArg Nat.cast (readAll_wordPieces bytes 108))
  · show (-32 : Int) + (Piece.readAll bytes _ : Nat) = (peek (fromBytes bytes).expandedScales k).toInt - 32
    have hlow : peek (fromBytes bytes).scales (k % 8) = peek bytes (96 + k % 8) :=
      peek_slice bytes 96 (by omega)
    have hhigh : peek (fromBytes bytes).scales (8 + k % 4) = peek bytes (96 + (8 + k % 4)) :=
      peek_slice bytes 96 (by omega)
    have hread : Piece.readAll bytes (layout.pieces (.scale k)) = _ := readAll_two bytes _ _
    rw [toInt_expandedScales _ k.isLt, hlow, hhigh, hread, Int.add_comm]
    rfl
  · have hshift : i.val % 128 / 32 * 2 < 8 := by omega
    have hlow : peek (slice bytes 32 64) (i / 128 * 32 + i % 32) =
        peek bytes (32 + (i / 128 * 32 + i % 32)) := peek_slice bytes 32 (by omega)
    have hhigh : peek (slice bytes 0 32) (i % 32) = peek bytes (i % 32) := by
      rw [peek_slice bytes 0 (Nat.mod_lt _ (by decide)), Nat.zero_add]
    show (-4 : Int) + (Piece.readAll bytes _ : Nat) =
      ((peek (slice bytes 32 64) (i / 128 * 32 + i % 32) >>> _) &&& 3).toNat -
        if (peek (slice bytes 0 32) (i % 32)).toNat.testBit (i / 32) then 0 else 4
    have hread : Piece.readAll bytes (layout.pieces (.code i)) = _ := readAll_two bytes _ _
    rw [@toNat_shiftRight_and_mask _ _ _ _ 2 rfl (toNat_shift hshift) hshift, hlow, hhigh, hread,
      ite_testBit]
    unfold Piece.read
    dsimp only
    rw [Nat.pow_one]
    omega

theorem tiles : layout.Tiles 110 where
  inside := by
    rintro (_ | k | i)
    · exact wordPieces_inside (by decide)
    · refine List.forall_mem_cons.mpr ⟨⟨?_, ?_⟩, List.forall_mem_singleton.mpr ⟨?_, ?_⟩⟩ <;>
        dsimp only <;> omega
    · refine List.forall_mem_cons.mpr ⟨⟨?_, ?_⟩, List.forall_mem_singleton.mpr ⟨?_, ?_⟩⟩ <;>
        dsimp only <;> omega
  covers := by
    intro byte hbyte bit hbit
    have hfirst : ∀ {low high : Piece}, low ∈ [low, high] := List.mem_cons_self
    have hsecond : ∀ {low high : Piece}, high ∈ [low, high] :=
      List.mem_cons_of_mem _ (List.mem_singleton_self _)
    by_cases hhigh : byte < 32
    · refine ⟨.code ⟨bit * 32 + byte, by omega⟩, _, hsecond, ?_, ?_, ?_⟩ <;> dsimp only <;> omega
    by_cases hvalues : byte < 96
    · refine ⟨.code ⟨(byte - 32) / 32 * 128 + bit / 2 * 32 + (byte - 32) % 32, by omega⟩, _, hfirst,
        ?_, ?_, ?_⟩ <;> dsimp only <;> omega
    by_cases hnibbles : byte < 104
    · refine ⟨.scale ⟨bit / 4 * 8 + (byte - 96), by omega⟩, _, hfirst, ?_, ?_, ?_⟩ <;>
        dsimp only <;> omega
    by_cases hscales : byte < 108
    · refine ⟨.scale ⟨bit / 2 * 4 + (byte - 104), by omega⟩, _, hsecond, ?_, ?_, ?_⟩ <;>
        dsimp only <;> omega
    · exact ⟨.scaleBits, _, mem_wordPieces (by omega) hbyte, rfl, Nat.zero_le _, hbit⟩
  count := ScaleField.sum_eq (a := 16) (b := 6) (c := 3) rfl (fun _ => rfl) (fun _ => rfl)

theorem bijOn_fields : Set.BijOn (fun bytes => (fromBytes bytes).fields) Set.univ
    {values | ∀ field, values field ∈
      ScaleField.ranges (Set.Ico (-32) 32) (Set.Ico (-4) 4) field} := by
  refine bijOn_of_layout tiles unpack_layout ?_
  rintro (_ | k | i) <;> rfl

end Q3KBlock

-- ---------------------------------------------------------------------------
-- Q4_K and Q5_K
-- ---------------------------------------------------------------------------

/-- What `q4_k_scale_min` returns. -/
def kScaleMin (scales : Vector UInt8 12) (idx : Nat) : UInt8 × UInt8 :=
  if idx < 4 then (peek scales idx &&& 63, peek scales (idx + 4) &&& 63)
  else
    ((peek scales (idx + 4) &&& (0x0f : UInt8)) ||| ((peek scales (idx - 4) >>> 6) <<< 4),
      (peek scales (idx + 4) >>> 4) ||| ((peek scales idx >>> 6) <<< 4))

/-- The bits of a scale, in the bytes 4 to 15 of a block. -/
def scalePieces (k : Nat) : List Piece :=
  if k < 4 then [⟨4 + k, 0, 6⟩] else [⟨4 + (k + 4), 0, 4⟩, ⟨4 + (k - 4), 6, 2⟩]

/-- The bits of a min, in the same bytes. -/
def minPieces (k : Nat) : List Piece :=
  if k < 4 then [⟨4 + (k + 4), 0, 6⟩] else [⟨4 + (k + 4), 4, 4⟩, ⟨4 + k, 6, 2⟩]

section ScaleMin

variable {size : Nat} (bytes : Vector UInt8 size) {k : Nat}

theorem total_scalePieces (k : Nat) : Piece.total (scalePieces k) = 6 := by
  unfold scalePieces
  split
  · rfl
  · rfl

theorem total_minPieces (k : Nat) : Piece.total (minPieces k) = 6 := by
  unfold minPieces
  split
  · rfl
  · rfl

/-- Two spilled bits on top of a nibble. -/
theorem toNat_spilled {nibble : UInt8} (high : UInt8) (h : nibble.toNat < 2 ^ 4) :
    (nibble ||| ((high >>> 6) <<< 4)).toNat = 2 ^ 4 * (high.toNat / 2 ^ 6 % 2 ^ 2) + nibble.toNat := by
  have hlt := high.toNat_lt
  have hspill : (high >>> 6).toNat = high.toNat / 2 ^ 6 := toNat_shiftRight _ rfl (by decide)
  rw [@toNat_or_shiftLeft _ _ _ 4 rfl (by decide) h (by rw [hspill]; omega), hspill]
  omega

theorem readAll_scalePieces (hk : k < 8) :
    Piece.readAll bytes (scalePieces k) = (kScaleMin (slice bytes 4 12) k).1.toNat := by
  unfold scalePieces kScaleMin
  by_cases h : k < 4
  · rw [if_pos h, if_pos h, readAll_one, @toNat_and_mask _ _ 6 rfl, peek_slice _ _ (by omega)]
    exact congrArg (· % _) (Nat.div_one _)
  · have hlow : (peek (slice bytes 4 12) (k + 4) &&& (0x0f : UInt8)).toNat =
        (peek bytes (4 + (k + 4))).toNat % 2 ^ 4 := by
      rw [@toNat_and_mask _ _ 4 rfl, peek_slice _ _ (by omega)]
    rw [if_neg h, if_neg h, readAll_two, toNat_spilled _ (hlow ▸ Nat.mod_lt _ (by decide)), hlow,
      peek_slice _ _ (by omega)]
    unfold Piece.read
    rw [Nat.pow_zero, Nat.div_one]

theorem readAll_minPieces (hk : k < 8) :
    Piece.readAll bytes (minPieces k) = (kScaleMin (slice bytes 4 12) k).2.toNat := by
  unfold minPieces kScaleMin
  by_cases h : k < 4
  · rw [if_pos h, if_pos h, readAll_one, @toNat_and_mask _ _ 6 rfl, peek_slice _ _ (by omega)]
    exact congrArg (· % _) (Nat.div_one _)
  · have hlt := (peek bytes (4 + (k + 4))).toNat_lt
    have hlow : (peek (slice bytes 4 12) (k + 4) >>> 4).toNat =
        (peek bytes (4 + (k + 4))).toNat / 2 ^ 4 := by
      rw [@toNat_shiftRight _ _ 4 rfl (by decide), peek_slice _ _ (by omega)]
    rw [if_neg h, if_neg h, readAll_two, toNat_spilled _ (by rw [hlow]; omega), hlow,
      peek_slice _ _ (by omega)]
    unfold Piece.read
    rw [Nat.mod_eq_of_lt (show _ / 2 ^ 4 < 2 ^ 4 by dsimp only; omega)]

theorem scalePieces_inside (hk : k < 8) (hsize : 16 ≤ size) :
    ∀ piece ∈ scalePieces k, piece.byte < size ∧ piece.shift + piece.width ≤ 8 := by
  unfold scalePieces
  split
  · refine List.forall_mem_singleton.mpr ⟨?_, ?_⟩ <;> dsimp only <;> omega
  · refine List.forall_mem_cons.mpr ⟨⟨?_, ?_⟩, List.forall_mem_singleton.mpr ⟨?_, ?_⟩⟩ <;>
      dsimp only <;> omega

theorem minPieces_inside (hk : k < 8) (hsize : 16 ≤ size) :
    ∀ piece ∈ minPieces k, piece.byte < size ∧ piece.shift + piece.width ≤ 8 := by
  unfold minPieces
  split
  · refine List.forall_mem_singleton.mpr ⟨?_, ?_⟩ <;> dsimp only <;> omega
  · refine List.forall_mem_cons.mpr ⟨⟨?_, ?_⟩, List.forall_mem_singleton.mpr ⟨?_, ?_⟩⟩ <;>
      dsimp only <;> omega

/-- Every bit of the twelve bytes is one of a scale or of a min. -/
theorem scaleMin_covers {byte bit : Nat} (hlow : 4 ≤ byte) (hhigh : byte < 16) (hbit : bit < 8) :
    (∃ k : Fin 8, ∃ piece ∈ scalePieces k,
      piece.byte = byte ∧ piece.shift ≤ bit ∧ bit < piece.shift + piece.width) ∨
    ∃ k : Fin 8, ∃ piece ∈ minPieces k,
      piece.byte = byte ∧ piece.shift ≤ bit ∧ bit < piece.shift + piece.width := by
  have hsecond : ∀ {low high : Piece}, high ∈ [low, high] :=
    List.mem_cons_of_mem _ (List.mem_singleton_self _)
  unfold scalePieces minPieces
  by_cases hscales : byte < 8
  · by_cases hsix : bit < 6
    · refine .inl ⟨⟨byte - 4, by omega⟩, ⟨byte, 0, 6⟩, ?_, rfl, Nat.zero_le _, hsix⟩
      rw [if_pos (by dsimp only; omega), List.mem_singleton, Piece.mk.injEq]
      exact ⟨by dsimp only; omega, rfl, rfl⟩
    · refine .inl ⟨⟨byte, by omega⟩, ⟨4 + (byte - 4), 6, 2⟩, ?_, ?_, ?_, ?_⟩
      · rw [if_neg (by dsimp only; omega)]
        exact hsecond
      all_goals dsimp only; omega
  by_cases hmins : byte < 12
  · by_cases hsix : bit < 6
    · refine .inr ⟨⟨byte - 8, by omega⟩, ⟨byte, 0, 6⟩, ?_, rfl, Nat.zero_le _, hsix⟩
      rw [if_pos (by dsimp only; omega), List.mem_singleton, Piece.mk.injEq]
      exact ⟨by dsimp only; omega, rfl, rfl⟩
    · refine .inr ⟨⟨byte - 4, by omega⟩, ⟨4 + (byte - 4), 6, 2⟩, ?_, ?_, ?_, ?_⟩
      · rw [if_neg (by dsimp only; omega)]
        exact hsecond
      all_goals dsimp only; omega
  · by_cases hfour : bit < 4
    · refine .inl ⟨⟨byte - 8, by omega⟩, ⟨4 + (byte - 8 + 4), 0, 4⟩, ?_, ?_, ?_, ?_⟩
      · rw [if_neg (by dsimp only; omega)]
        exact List.mem_cons_self
      all_goals dsimp only; omega
    · refine .inr ⟨⟨byte - 8, by omega⟩, ⟨4 + (byte - 8 + 4), 4, 4⟩, ?_, ?_, ?_, ?_⟩
      · rw [if_neg (by dsimp only; omega)]
        exact List.mem_cons_self
      all_goals dsimp only; omega

end ScaleMin

namespace Q4KBlock

def code (block : Q4KBlock) (i : Nat) : Int :=
  (nibble (peek block.values (i / 64 * 32 + i % 32)) (i % 64 < 32)).toNat

def fields (block : Q4KBlock) : ScaleField 8 ⊕ MinField 8 → Int :=
  Sum.elim
    (ScaleField.values block.scaleBits (fun k => (kScaleMin block.scales k).1.toNat) block.code)
    (MinField.values block.minBits fun k => (kScaleMin block.scales k).2.toNat)

def layout : BitLayout (ScaleField 8 ⊕ MinField 8) where
  pieces
    | .inl .scaleBits => wordPieces 0
    | .inl (.scale k) => scalePieces k
    | .inl (.code i) => [⟨16 + (i / 64 * 32 + i % 32), if i.val % 64 < 32 then 0 else 4, 4⟩]
    | .inr .minBits => wordPieces 2
    | .inr (.min k) => minPieces k
  coding _ := .offset 0

theorem unpack_layout (bytes : Vector UInt8 144) :
    layout.unpack bytes = (fromBytes bytes).fields := by
  funext field
  refine (Int.zero_add _).trans ?_
  rcases field with (_ | k | i) | (_ | k)
  · exact congrArg Nat.cast (readAll_wordPieces bytes 0)
  · exact congrArg Nat.cast (readAll_scalePieces bytes k.isLt)
  · refine congrArg Nat.cast ((readAll_one bytes _).trans ?_)
    show _ = (nibble (peek (slice bytes 16 128) (i / 64 * 32 + i % 32)) (i.val % 64 < 32)).toNat
    rw [toNat_nibble, peek_slice _ _ (by omega)]
    rfl
  · exact congrArg Nat.cast (readAll_wordPieces bytes 2)
  · exact congrArg Nat.cast (readAll_minPieces bytes k.isLt)

theorem tiles : layout.Tiles 144 where
  inside := by
    rintro ((_ | k | i) | (_ | k))
    · exact wordPieces_inside (by decide)
    · exact scalePieces_inside k.isLt (by decide)
    · refine List.forall_mem_singleton.mpr ⟨?_, ?_⟩
      · dsimp only
        omega
      · dsimp only
        split <;> omega
    · exact wordPieces_inside (by decide)
    · exact minPieces_inside k.isLt (by decide)
  covers := by
    intro byte hbyte bit hbit
    by_cases hscale : byte < 2
    · exact ⟨.inl .scaleBits, _, mem_wordPieces (Nat.zero_le _) hscale, rfl, Nat.zero_le _, hbit⟩
    by_cases hmin : byte < 4
    · exact ⟨.inr .minBits, _, mem_wordPieces (by omega) hmin, rfl, Nat.zero_le _, hbit⟩
    by_cases hscales : byte < 16
    · rcases scaleMin_covers (by omega) hscales hbit with ⟨k, hk⟩ | ⟨k, hk⟩
      · exact ⟨.inl (.scale k), hk⟩
      · exact ⟨.inr (.min k), hk⟩
    · refine ⟨.inl (.code ⟨(byte - 16) / 32 * 64 + bit / 4 * 32 + (byte - 16) % 32, by omega⟩), _,
        List.mem_singleton_self _, ?_, ?_, ?_⟩
      · dsimp only
        omega
      · dsimp only
        split <;> omega
      · dsimp only
        split <;> omega
  count := by
    rw [Fintype.sum_sum_type, ScaleField.sum_eq (a := 16) (b := 6) (c := 4) rfl
      (fun k => total_scalePieces k) (fun _ => rfl),
      MinField.sum_eq (a := 16) (b := 6) rfl fun k => total_minPieces k]

theorem bijOn_fields : Set.BijOn (fun bytes => (fromBytes bytes).fields) Set.univ
    {values | ∀ field, values field ∈ Sum.elim
      (ScaleField.ranges (Set.Ico 0 64) (Set.Ico 0 16)) (MinField.ranges (Set.Ico 0 64)) field} := by
  refine bijOn_of_layout tiles unpack_layout ?_
  rintro ((_ | k | i) | (_ | k))
  · rfl
  · exact congrArg (fun width => Coding.range width (.offset 0)) (total_scalePieces k)
  · rfl
  · rfl
  · exact congrArg (fun width => Coding.range width (.offset 0)) (total_minPieces k)

end Q4KBlock

namespace Q5KBlock

def code (block : Q5KBlock) (i : Nat) : Int :=
  (nibble (peek block.values (i / 64 * 32 + i % 32)) (i % 64 < 32)).toNat +
    if (peek block.highBits (i % 32)).toNat.testBit (i / 32) then 16 else 0

def fields (block : Q5KBlock) : ScaleField 8 ⊕ MinField 8 → Int :=
  Sum.elim
    (ScaleField.values block.scaleBits (fun k => (kScaleMin block.scales k).1.toNat) block.code)
    (MinField.values block.minBits fun k => (kScaleMin block.scales k).2.toNat)

def layout : BitLayout (ScaleField 8 ⊕ MinField 8) where
  pieces
    | .inl .scaleBits => wordPieces 0
    | .inl (.scale k) => scalePieces k
    | .inl (.code i) =>
      [⟨48 + (i / 64 * 32 + i % 32), if i.val % 64 < 32 then 0 else 4, 4⟩, ⟨16 + i % 32, i / 32, 1⟩]
    | .inr .minBits => wordPieces 2
    | .inr (.min k) => minPieces k
  coding _ := .offset 0

theorem unpack_layout (bytes : Vector UInt8 176) :
    layout.unpack bytes = (fromBytes bytes).fields := by
  funext field
  refine (Int.zero_add _).trans ?_
  rcases field with (_ | k | i) | (_ | k)
  · exact congrArg Nat.cast (readAll_wordPieces bytes 0)
  · exact congrArg Nat.cast (readAll_scalePieces bytes k.isLt)
  · have hlow : peek (slice bytes 48 128) (i / 64 * 32 + i % 32) =
        peek bytes (48 + (i / 64 * 32 + i % 32)) := peek_slice bytes 48 (by omega)
    have hhigh : peek (slice bytes 16 32) (i % 32) = peek bytes (16 + i % 32) :=
      peek_slice bytes 16 (Nat.mod_lt _ (by decide))
    refine (congrArg Nat.cast (readAll_two bytes _ _)).trans ?_
    show _ = ((nibble (peek (slice bytes 48 128) (i / 64 * 32 + i % 32)) (i.val % 64 < 32)).toNat +
      if (peek (slice bytes 16 32) (i % 32)).toNat.testBit (i / 32) then 16 else 0 : Int)
    rw [toNat_nibble, hlow, hhigh, ite_testBit]
    unfold Piece.read
    dsimp only
    rw [Nat.pow_one]
    omega
  · exact congrArg Nat.cast (readAll_wordPieces bytes 2)
  · exact congrArg Nat.cast (readAll_minPieces bytes k.isLt)

theorem tiles : layout.Tiles 176 where
  inside := by
    rintro ((_ | k | i) | (_ | k))
    · exact wordPieces_inside (by decide)
    · exact scalePieces_inside k.isLt (by decide)
    · refine List.forall_mem_cons.mpr ⟨⟨?_, ?_⟩, List.forall_mem_singleton.mpr ⟨?_, ?_⟩⟩
      · dsimp only
        omega
      · dsimp only
        split <;> omega
      all_goals dsimp only; omega
    · exact wordPieces_inside (by decide)
    · exact minPieces_inside k.isLt (by decide)
  covers := by
    intro byte hbyte bit hbit
    by_cases hscale : byte < 2
    · exact ⟨.inl .scaleBits, _, mem_wordPieces (Nat.zero_le _) hscale, rfl, Nat.zero_le _, hbit⟩
    by_cases hmin : byte < 4
    · exact ⟨.inr .minBits, _, mem_wordPieces (by omega) hmin, rfl, Nat.zero_le _, hbit⟩
    by_cases hscales : byte < 16
    · rcases scaleMin_covers (by omega) hscales hbit with ⟨k, hk⟩ | ⟨k, hk⟩
      · exact ⟨.inl (.scale k), hk⟩
      · exact ⟨.inr (.min k), hk⟩
    by_cases hhigh : byte < 48
    · refine ⟨.inl (.code ⟨bit * 32 + (byte - 16), by omega⟩), _,
        List.mem_cons_of_mem _ (List.mem_singleton_self _), ?_, ?_, ?_⟩ <;> dsimp only <;> omega
    · refine ⟨.inl (.code ⟨(byte - 48) / 32 * 64 + bit / 4 * 32 + (byte - 48) % 32, by omega⟩), _,
        List.mem_cons_self, ?_, ?_, ?_⟩
      · dsimp only
        omega
      · dsimp only
        split <;> omega
      · dsimp only
        split <;> omega
  count := by
    rw [Fintype.sum_sum_type, ScaleField.sum_eq (a := 16) (b := 6) (c := 5) rfl
      (fun k => total_scalePieces k) (fun _ => rfl),
      MinField.sum_eq (a := 16) (b := 6) rfl fun k => total_minPieces k]

theorem bijOn_fields : Set.BijOn (fun bytes => (fromBytes bytes).fields) Set.univ
    {values | ∀ field, values field ∈ Sum.elim
      (ScaleField.ranges (Set.Ico 0 64) (Set.Ico 0 32)) (MinField.ranges (Set.Ico 0 64)) field} := by
  refine bijOn_of_layout tiles unpack_layout ?_
  rintro ((_ | k | i) | (_ | k))
  · rfl
  · exact congrArg (fun width => Coding.range width (.offset 0)) (total_scalePieces k)
  · rfl
  · rfl
  · exact congrArg (fun width => Coding.range width (.offset 0)) (total_minPieces k)

end Q5KBlock

-- ---------------------------------------------------------------------------
-- Q6_K
-- ---------------------------------------------------------------------------

namespace Q6KBlock

/-- The signed scale of a sub-block. -/
def scale (block : Q6KBlock) (k : Nat) : Int := (peek block.scales k).toInt

/-- A nibble and two high bits of an element, before 32 is taken away. -/
def rawCode (block : Q6KBlock) (i : Nat) : UInt8 :=
  nibble (peek block.ql (i / 128 * 64 + i % 64)) (i % 128 < 64) |||
    (((peek block.qh (i / 128 * 32 + i % 32) >>> .ofNat (i % 128 / 32 * 2)) &&& 0x03) <<< 4)

def signedCode (block : Q6KBlock) (i : Nat) : Int := (block.rawCode i).toNat - 32

def fields (block : Q6KBlock) : ScaleField 16 → Int :=
  ScaleField.values block.scaleBits block.scale block.signedCode

def layout : BitLayout (ScaleField 16) where
  pieces
    | .scaleBits => wordPieces 208
    | .scale k => [⟨192 + k, 0, 8⟩]
    | .code i =>
      [⟨i / 128 * 64 + i % 64, if i.val % 128 < 64 then 0 else 4, 4⟩,
        ⟨128 + (i / 128 * 32 + i % 32), i % 128 / 32 * 2, 2⟩]
  coding
    | .scaleBits => .offset 0
    | .scale _ => .twosComplement
    | .code _ => .offset (-32)

theorem toNat_rawCode (block : Q6KBlock) (i : Nat) :
    (block.rawCode i).toNat =
      2 ^ 4 * ((peek block.qh (i / 128 * 32 + i % 32)).toNat / 2 ^ (i % 128 / 32 * 2) % 2 ^ 2) +
        (peek block.ql (i / 128 * 64 + i % 64)).toNat / 2 ^ (if i % 128 < 64 then 0 else 4) % 2 ^ 4 := by
  have hshift : i % 128 / 32 * 2 < 8 := by omega
  have hhigh : ((peek block.qh (i / 128 * 32 + i % 32) >>> UInt8.ofNat (i % 128 / 32 * 2)) &&&
      0x03).toNat = (peek block.qh (i / 128 * 32 + i % 32)).toNat / 2 ^ (i % 128 / 32 * 2) % 2 ^ 2 :=
    toNat_shiftRight_and_mask _ rfl (toNat_shift hshift) hshift
  have hlt : (peek block.qh (i / 128 * 32 + i % 32)).toNat / 2 ^ (i % 128 / 32 * 2) % 2 ^ 2 < 2 ^ 2 :=
    Nat.mod_lt _ (by decide)
  unfold rawCode
  rw [@toNat_or_shiftLeft _ _ _ 4 rfl (by decide) (toNat_nibble_lt _ _) (by rw [hhigh]; omega), hhigh,
    toNat_nibble, Nat.mul_comm]

theorem unpack_layout (bytes : Vector UInt8 210) :
    layout.unpack bytes = (fromBytes bytes).fields := by
  funext field
  rcases field with _ | k | i
  · exact (Int.zero_add _).trans (congrArg Nat.cast (readAll_wordPieces bytes 208))
  · have hscale : peek (fromBytes bytes).scales k = (peek bytes (192 + k)).toInt8 := by
      rw [peek_of_lt _ k.isLt]
      exact Vector.getElem_ofFn _
    have hread : Piece.readAll bytes (layout.pieces (.scale k)) = (peek bytes (192 + k)).toNat := by
      refine (readAll_one bytes _).trans ?_
      unfold Piece.read
      rw [Nat.pow_zero, Nat.div_one]
      exact Nat.mod_eq_of_lt (peek bytes (192 + k)).toNat_lt
    show (Piece.readAll bytes (layout.pieces (.scale k)) : Int).bmod _ =
      (peek (fromBytes bytes).scales k).toInt
    rw [hread, hscale, toInt_toInt8]
    rfl
  · have hlow : peek (fromBytes bytes).ql (i / 128 * 64 + i % 64) =
        peek bytes (i / 128 * 64 + i % 64) := by
      refine (peek_slice bytes 0 (by omega)).trans ?_
      rw [Nat.zero_add]
    have hhigh : peek (fromBytes bytes).qh (i / 128 * 32 + i % 32) =
        peek bytes (128 + (i / 128 * 32 + i % 32)) := peek_slice bytes 128 (by omega)
    have hread : Piece.readAll bytes (layout.pieces (.code i)) = _ := readAll_two bytes _ _
    show (-32 : Int) + (Piece.readAll bytes (layout.pieces (.code i)) : Nat) =
      ((fromBytes bytes).rawCode i).toNat - 32
    rw [toNat_rawCode, hlow, hhigh, hread, Int.add_comm]
    rfl

theorem tiles : layout.Tiles 210 where
  inside := by
    rintro (_ | k | i)
    · exact wordPieces_inside (by decide)
    · refine List.forall_mem_singleton.mpr ⟨?_, ?_⟩ <;> dsimp only <;> omega
    · refine List.forall_mem_cons.mpr ⟨⟨?_, ?_⟩, List.forall_mem_singleton.mpr ⟨?_, ?_⟩⟩
      · dsimp only
        omega
      · dsimp only
        split <;> omega
      all_goals dsimp only; omega
  covers := by
    intro byte hbyte bit hbit
    by_cases hlow : byte < 128
    · refine ⟨.code ⟨byte / 64 * 128 + bit / 4 * 64 + byte % 64, by omega⟩, _, List.mem_cons_self,
        ?_, ?_, ?_⟩
      · dsimp only
        omega
      · dsimp only
        split <;> omega
      · dsimp only
        split <;> omega
    by_cases hhigh : byte < 192
    · refine ⟨.code ⟨(byte - 128) / 32 * 128 + bit / 2 * 32 + (byte - 128) % 32, by omega⟩, _,
        List.mem_cons_of_mem _ (List.mem_singleton_self _), ?_, ?_, ?_⟩ <;> dsimp only <;> omega
    by_cases hscales : byte < 208
    · refine ⟨.scale ⟨byte - 192, by omega⟩, _, List.mem_singleton_self _, ?_, Nat.zero_le _, hbit⟩
      dsimp only
      omega
    · exact ⟨.scaleBits, _, mem_wordPieces (by omega) hbyte, rfl, Nat.zero_le _, hbit⟩
  count := ScaleField.sum_eq (a := 16) (b := 8) (c := 6) rfl (fun _ => rfl) (fun _ => rfl)

theorem bijOn_fields : Set.BijOn (fun bytes => (fromBytes bytes).fields) Set.univ
    {values | ∀ field, values field ∈
      ScaleField.ranges (Set.Ico (-128) 128) (Set.Ico (-32) 32) field} := by
  refine bijOn_of_layout tiles unpack_layout ?_
  rintro (_ | k | i)
  · rfl
  · have hwidth : layout.width (.scale k) = 8 := rfl
    show Coding.range (layout.width (.scale k)) .twosComplement = Set.Ico (-128) 128
    rw [hwidth]
    exact congrArg₂ Set.Ico (by decide) (by decide)
  · rfl

end Q6KBlock

-- ---------------------------------------------------------------------------
-- IQ4_XS
-- ---------------------------------------------------------------------------

/-- Two bits of a word, in the byte they are in. -/
theorem u16At_bits {size : Nat} (bytes : Vector UInt8 size) (start : Nat) {k : Nat} (hk : k < 8) :
    (u16At bytes start).toNat / 2 ^ (2 * k) % 2 ^ 2 =
      (peek bytes (start + k / 4)).toNat / 2 ^ (k % 4 * 2) % 2 ^ 2 := by
  have hlow := (peek bytes start).toNat_lt
  have hhigh := (peek bytes (start + 1)).toNat_lt
  unfold u16At Gguf.Cursor.fromLeBytes
  simp only [List.foldr_cons, List.foldr_nil, UInt16.toNat_ofNat']
  interval_cases k <;> simp only [Nat.reduceDiv, Nat.reduceMod, Nat.add_zero] <;> omega

namespace IQ4XSBlock

/-- What `sub_block_scale_int` returns. -/
def scale (block : IQ4XSBlock) (k : Nat) : Int :=
  (((peek block.scalesL (k / 2) >>> .ofNat (4 * (k % 2))) &&& (0x0f : UInt8)) |||
    (((block.scalesH >>> .ofNat (2 * k)) &&& 0x3).toUInt8 <<< 4)).toNat - 32

/-- The index into the code book. -/
def code (block : IQ4XSBlock) (i : Nat) : Int :=
  (nibble (peek block.qs (i / 32 * 16 + i % 16)) (i % 32 < 16)).toNat

def fields (block : IQ4XSBlock) : ScaleField 8 → Int :=
  ScaleField.values block.d block.scale block.code

def layout : BitLayout (ScaleField 8) where
  pieces
    | .scaleBits => wordPieces 0
    | .scale k => [⟨4 + k / 2, 4 * (k % 2), 4⟩, ⟨2 + k / 4, k % 4 * 2, 2⟩]
    | .code i => [⟨8 + (i / 32 * 16 + i % 16), if i.val % 32 < 16 then 0 else 4, 4⟩]
  coding
    | .scaleBits => .offset 0
    | .scale _ => .offset (-32)
    | .code _ => .offset 0

theorem scale_eq (block : IQ4XSBlock) {k : Nat} (hk : k < 8) :
    block.scale k =
      ((2 ^ 4 * (block.scalesH.toNat / 2 ^ (2 * k) % 2 ^ 2) +
        (peek block.scalesL (k / 2)).toNat / 2 ^ (4 * (k % 2)) % 2 ^ 4 : Nat) : Int) - 32 := by
  have hshift : 4 * (k % 2) < 8 := by omega
  have hword : (UInt16.ofNat (2 * k)).toNat % 16 = 2 * k := by
    rw [UInt16.toNat_ofNat', Nat.mod_eq_of_lt (show 2 * k < 2 ^ 16 by omega), Nat.mod_eq_of_lt (by omega)]
  have hlt : block.scalesH.toNat / 2 ^ (2 * k) % 2 ^ 2 < 2 ^ 2 := Nat.mod_lt _ (by decide)
  have hmask : block.scalesH.toNat / 2 ^ (2 * k) &&& 3 = block.scalesH.toNat / 2 ^ (2 * k) % 2 ^ 2 :=
    Nat.and_two_pow_sub_one_eq_mod _ 2
  have hhigh : ((block.scalesH >>> UInt16.ofNat (2 * k)) &&& 0x3).toUInt8.toNat =
      block.scalesH.toNat / 2 ^ (2 * k) % 2 ^ 2 := by
    rw [UInt16.toNat_toUInt8, UInt16.toNat_and, UInt16.toNat_shiftRight, hword,
      Nat.shiftRight_eq_div_pow, show (0x3 : UInt16).toNat = 3 from rfl, hmask]
    exact Nat.mod_eq_of_lt (by omega)
  have hlow : ((peek block.scalesL (k / 2) >>> UInt8.ofNat (4 * (k % 2))) &&& (0x0f : UInt8)).toNat =
      (peek block.scalesL (k / 2)).toNat / 2 ^ (4 * (k % 2)) % 2 ^ 4 :=
    toNat_shiftRight_and_mask _ rfl (toNat_shift hshift) hshift
  unfold scale
  rw [@toNat_or_shiftLeft _ _ _ 4 rfl (by decide) (hlow ▸ Nat.mod_lt _ (by decide))
    (by rw [hhigh]; omega), hhigh, hlow, Nat.mul_comm]

theorem unpack_layout (bytes : Vector UInt8 136) :
    layout.unpack bytes = (fromBytes bytes).fields := by
  funext field
  rcases field with _ | k | i
  · exact (Int.zero_add _).trans (congrArg Nat.cast (readAll_wordPieces bytes 0))
  · have hread : Piece.readAll bytes (layout.pieces (.scale k)) = _ := readAll_two bytes _ _
    have hlow : peek (fromBytes bytes).scalesL (k / 2) = peek bytes (4 + k / 2) :=
      peek_slice bytes 4 (by omega)
    have hhigh : (fromBytes bytes).scalesH.toNat / 2 ^ (2 * k.val) % 2 ^ 2 =
        (peek bytes (2 + k / 4)).toNat / 2 ^ (k.val % 4 * 2) % 2 ^ 2 := u16At_bits bytes 2 k.isLt
    show (-32 : Int) + (Piece.readAll bytes (layout.pieces (.scale k)) : Nat) = (fromBytes bytes).scale k
    rw [scale_eq _ k.isLt, hlow, hhigh, hread, Int.add_comm]
    rfl
  · refine (Int.zero_add _).trans (congrArg Nat.cast ((readAll_one bytes _).trans ?_))
    show _ = (nibble (peek (slice bytes 8 128) (i / 32 * 16 + i % 16)) (i.val % 32 < 16)).toNat
    rw [toNat_nibble, peek_slice _ _ (by omega)]
    rfl

theorem tiles : layout.Tiles 136 where
  inside := by
    rintro (_ | k | i)
    · exact wordPieces_inside (by decide)
    · refine List.forall_mem_cons.mpr ⟨⟨?_, ?_⟩, List.forall_mem_singleton.mpr ⟨?_, ?_⟩⟩ <;>
        dsimp only <;> omega
    · refine List.forall_mem_singleton.mpr ⟨?_, ?_⟩
      · dsimp only
        omega
      · dsimp only
        split <;> omega
  covers := by
    intro byte hbyte bit hbit
    by_cases hscale : byte < 2
    · exact ⟨.scaleBits, _, mem_wordPieces (Nat.zero_le _) hscale, rfl, Nat.zero_le _, hbit⟩
    by_cases hhigh : byte < 4
    · refine ⟨.scale ⟨(byte - 2) * 4 + bit / 2, by omega⟩, _,
        List.mem_cons_of_mem _ (List.mem_singleton_self _), ?_, ?_, ?_⟩ <;> dsimp only <;> omega
    by_cases hlow : byte < 8
    · refine ⟨.scale ⟨(byte - 4) * 2 + bit / 4, by omega⟩, _, List.mem_cons_self, ?_, ?_, ?_⟩ <;>
        dsimp only <;> omega
    · refine ⟨.code ⟨(byte - 8) / 16 * 32 + bit / 4 * 16 + (byte - 8) % 16, by omega⟩, _,
        List.mem_singleton_self _, ?_, ?_, ?_⟩
      · dsimp only
        omega
      · dsimp only
        split <;> omega
      · dsimp only
        split <;> omega
  count := ScaleField.sum_eq (a := 16) (b := 6) (c := 4) rfl (fun _ => rfl) (fun _ => rfl)

theorem bijOn_fields : Set.BijOn (fun bytes => (fromBytes bytes).fields) Set.univ
    {values | ∀ field, values field ∈
      ScaleField.ranges (Set.Ico (-32) 32) (Set.Ico 0 16) field} := by
  refine bijOn_of_layout tiles unpack_layout ?_
  rintro (_ | k | i) <;> rfl

end IQ4XSBlock

end CamelidEnterprise

import Mathlib.Data.Fintype.BigOperators
import Mathlib.Data.Int.ConditionallyCompleteOrder
import Mathlib.Data.Set.Function
import Mathlib.Order.ConditionallyCompleteLattice.Basic
import CamelidEnterprise.Foundation.Buffer

/-!
# Fields packed into bytes

A packed block is bytes, and what it says is numbers: each number is laid out in pieces,
some adjacent bits of a byte each, and is read from them low bits first. A layout is a
table of these pieces, with how each number is coded.

`BitLayout.bijOn_unpack` — when the pieces tile the bytes, with no bit twice and none left
out, reading is one-to-one and onto: each block says something else, and every choice of
numbers in their ranges is said by some block. To tile it is enough that every bit is in
some piece and the widths add up.
-/

namespace Foundation

open Buffer

/-- Adjacent bits of one byte. -/
structure Piece where
  byte : ℕ
  shift : ℕ
  width : ℕ

-- ---------------------------------------------------------------------------
-- Numbers in pieces
-- ---------------------------------------------------------------------------

namespace Piece

variable {size : ℕ}

def read (bytes : Vector UInt8 size) (piece : Piece) : ℕ :=
  (peek bytes piece.byte).toNat / 2 ^ piece.shift % 2 ^ piece.width

/-- The number in some pieces, the low ones first. -/
def readAll (bytes : Vector UInt8 size) : List Piece → ℕ
  | [] => 0
  | piece :: pieces => 2 ^ piece.width * readAll bytes pieces + piece.read bytes

def total : List Piece → ℕ
  | [] => 0
  | piece :: pieces => piece.width + total pieces

/-- The byte and the bit of it where a bit of the number is. -/
def bitPlace : List Piece → ℕ → ℕ × ℕ
  | [], _ => (0, 0)
  | piece :: pieces, k =>
    if k < piece.width then (piece.byte, k + piece.shift) else bitPlace pieces (k - piece.width)

theorem read_lt (bytes : Vector UInt8 size) (piece : Piece) : piece.read bytes < 2 ^ piece.width :=
  Nat.mod_lt _ (Nat.two_pow_pos _)

theorem readAll_lt (bytes : Vector UInt8 size) (pieces : List Piece) :
    readAll bytes pieces < 2 ^ total pieces := by
  induction pieces with
  | nil => exact Nat.one_pos
  | cons piece pieces ih =>
    have hlow := piece.read_lt bytes
    unfold readAll total
    rw [Nat.pow_add]
    calc 2 ^ piece.width * readAll bytes pieces + piece.read bytes
        < 2 ^ piece.width * (readAll bytes pieces + 1) := by
          rw [Nat.mul_add, Nat.mul_one]
          exact Nat.add_lt_add_left hlow _
      _ ≤ 2 ^ piece.width * 2 ^ total pieces := Nat.mul_le_mul_left _ ih

theorem testBit_readAll (bytes : Vector UInt8 size) {pieces : List Piece} {k : ℕ}
    (h : k < total pieces) :
    (readAll bytes pieces).testBit k =
      (peek bytes (bitPlace pieces k).1).toNat.testBit (bitPlace pieces k).2 := by
  induction pieces generalizing k with
  | nil => exact absurd h (Nat.not_lt_zero k)
  | cons piece pieces ih =>
    have hlow := piece.read_lt bytes
    unfold readAll bitPlace
    rw [Nat.testBit_two_pow_mul_add _ hlow]
    by_cases hk : k < piece.width
    · rw [if_pos hk, if_pos hk]
      unfold read
      rw [Nat.testBit_mod_two_pow, Nat.testBit_div_two_pow, decide_eq_true hk, Bool.true_and]
    · rw [if_neg hk, if_neg hk]
      exact ih (by unfold total at h; omega)

/-- Every bit of a piece is some bit of the number. -/
theorem exists_bitPlace {pieces : List Piece} {piece : Piece} (hmem : piece ∈ pieces) {bit : ℕ}
    (hlow : piece.shift ≤ bit) (hhigh : bit < piece.shift + piece.width) :
    ∃ k < total pieces, bitPlace pieces k = (piece.byte, bit) := by
  induction pieces with
  | nil => exact absurd hmem List.not_mem_nil
  | cons first pieces ih =>
    unfold total bitPlace
    rcases List.mem_cons.mp hmem with rfl | hmem
    · refine ⟨bit - piece.shift, by omega, ?_⟩
      rw [if_pos (by omega), Nat.sub_add_cancel hlow]
    · obtain ⟨k, hk, hplace⟩ := ih hmem
      refine ⟨first.width + k, by omega, ?_⟩
      rw [if_neg (by omega), Nat.add_sub_cancel_left, hplace]

theorem bitPlace_inside {pieces : List Piece}
    (h : ∀ piece ∈ pieces, piece.byte < size ∧ piece.shift + piece.width ≤ 8) {k : ℕ}
    (hk : k < total pieces) : (bitPlace pieces k).1 < size ∧ (bitPlace pieces k).2 < 8 := by
  induction pieces generalizing k with
  | nil => exact absurd hk (Nat.not_lt_zero k)
  | cons piece pieces ih =>
    obtain ⟨hbyte, hbits⟩ := h piece List.mem_cons_self
    unfold bitPlace
    by_cases hlt : k < piece.width
    · rw [if_pos hlt]
      exact ⟨hbyte, by omega⟩
    · rw [if_neg hlt]
      exact ih (fun other hother => h other (List.mem_cons_of_mem _ hother))
        (by unfold total at hk; omega)

end Piece

-- ---------------------------------------------------------------------------
-- Codings
-- ---------------------------------------------------------------------------

/-- What the bits of a number stand for. -/
inductive Coding
  | offset (least : ℤ)
  | twosComplement

namespace Coding

def decode (width raw : ℕ) : Coding → ℤ
  | .offset least => least + raw
  | .twosComplement => (raw : ℤ).bmod (2 ^ width)

def range (width : ℕ) : Coding → Set ℤ
  | .offset least => Set.Ico least (least + (2 ^ width : ℕ))
  | .twosComplement => Set.Ico (-((2 ^ width : ℕ) / 2)) (((2 ^ width : ℕ) + 1) / 2)

theorem bijOn_decode (coding : Coding) (width : ℕ) :
    Set.BijOn (fun raw => coding.decode width raw) (Set.Iio (2 ^ width)) (coding.range width) := by
  have hpos := Nat.two_pow_pos width
  cases coding with
  | offset least =>
    refine ⟨?_, ?_, ?_⟩
    · intro raw hraw
      rw [Set.mem_Iio] at hraw
      simp only [range, decode, Set.mem_Ico]
      omega
    · intro raw _ raw' _ heq
      simp only [decode] at heq
      omega
    · intro value hvalue
      simp only [range, Set.mem_Ico] at hvalue
      refine ⟨(value - least).toNat, ?_, ?_⟩
      · rw [Set.mem_Iio]
        omega
      · simp only [decode]
        omega
  | twosComplement =>
    refine ⟨?_, ?_, ?_⟩
    · intro raw _
      exact ⟨Int.le_bmod hpos, Int.bmod_lt hpos⟩
    · intro raw hraw raw' hraw' heq
      have hmod := congrArg (fun value : ℤ => value % (2 ^ width : ℕ)) heq
      simp only [decode, Int.bmod_emod] at hmod
      rw [Set.mem_Iio] at hraw hraw'
      rw [← Int.natCast_mod, ← Int.natCast_mod, Nat.mod_eq_of_lt hraw, Nat.mod_eq_of_lt hraw'] at hmod
      exact Int.ofNat.inj hmod
    · intro value hvalue
      refine ⟨(value % (2 ^ width : ℕ)).toNat, ?_, ?_⟩
      · have hlt := Int.emod_lt_of_pos value (Int.natCast_pos.mpr hpos)
        rw [Set.mem_Iio]
        omega
      · have hnonneg := Int.emod_nonneg value (Int.natCast_pos.mpr hpos).ne'
        simp only [decode]
        rw [Int.toNat_of_nonneg hnonneg, Int.emod_bmod]
        exact Int.bmod_eq_of_le hvalue.1 hvalue.2

end Coding

-- ---------------------------------------------------------------------------
-- Layouts
-- ---------------------------------------------------------------------------

/-- Where each field is and how it is coded. -/
structure BitLayout (Field : Type) where
  pieces : Field → List Piece
  coding : Field → Coding

namespace BitLayout

variable {Field : Type} {size : ℕ} (layout : BitLayout Field)

def width (field : Field) : ℕ := Piece.total (layout.pieces field)

def unpack (bytes : Vector UInt8 size) (field : Field) : ℤ :=
  (layout.coding field).decode (layout.width field) (Piece.readAll bytes (layout.pieces field))

def range (field : Field) : Set ℤ := (layout.coding field).range (layout.width field)

/-- The pieces are bits of the block, every bit is in one, and there are as many. -/
structure Tiles [Fintype Field] (size : ℕ) : Prop where
  inside : ∀ field, ∀ piece ∈ layout.pieces field,
    piece.byte < size ∧ piece.shift + piece.width ≤ 8
  covers : ∀ byte < size, ∀ bit < 8, ∃ field, ∃ piece ∈ layout.pieces field,
    piece.byte = byte ∧ piece.shift ≤ bit ∧ bit < piece.shift + piece.width
  count : ∑ field, layout.width field = 8 * size

variable {layout} [Fintype Field]

/-- The place of each bit of each field. -/
def Tiles.place (h : layout.Tiles size) (bit : Σ field, Fin (layout.width field)) :
    Fin size × Fin 8 :=
  have hinside := Piece.bitPlace_inside (h.inside bit.1) bit.2.isLt
  (⟨(Piece.bitPlace (layout.pieces bit.1) bit.2).1, hinside.1⟩,
    ⟨(Piece.bitPlace (layout.pieces bit.1) bit.2).2, hinside.2⟩)

/-- No place is taken twice: all are taken, by as many bits as there are places. -/
theorem Tiles.place_bijective (h : layout.Tiles size) : Function.Bijective h.place := by
  refine (Fintype.bijective_iff_surjective_and_card _).mpr ⟨?_, ?_⟩
  · rintro ⟨byte, bit⟩
    obtain ⟨field, piece, hmem, hbyte, hlow, hhigh⟩ := h.covers byte byte.isLt bit bit.isLt
    obtain ⟨k, hk, hplace⟩ := Piece.exists_bitPlace hmem hlow hhigh
    refine ⟨⟨field, ⟨k, hk⟩⟩, ?_⟩
    unfold place
    simp only [hplace, hbyte]
  · rw [Fintype.card_sigma, Fintype.card_prod, Fintype.card_fin, Fintype.card_fin, Nat.mul_comm,
      ← h.count]
    simp only [Fintype.card_fin]

theorem testBit_peek_ge (bytes : Vector UInt8 size) (i : ℕ) {k : ℕ} (h : 8 ≤ k) :
    (peek bytes i).toNat.testBit k = false :=
  Nat.testBit_lt_two_pow ((peek bytes i).toNat_lt.trans_le (Nat.pow_le_pow_right (by decide) h))

/-- Bytes are the same when their bits are. -/
theorem bytes_ext {bytes bytes' : Vector UInt8 size}
    (h : ∀ (byte : Fin size) (bit : Fin 8),
      (peek bytes byte).toNat.testBit bit = (peek bytes' byte).toNat.testBit bit) :
    bytes = bytes' := by
  refine Vector.ext fun i hi => ?_
  rw [← peek_of_lt bytes hi, ← peek_of_lt bytes' hi, ← UInt8.toNat_inj]
  refine Nat.eq_of_testBit_eq fun k => ?_
  rcases Nat.lt_or_ge k 8 with hk | hk
  · exact h ⟨i, hi⟩ ⟨k, hk⟩
  · rw [testBit_peek_ge _ _ hk, testBit_peek_ge _ _ hk]

theorem exists_bytes (bits : Fin size × Fin 8 → Bool) :
    ∃ bytes : Vector UInt8 size, ∀ place : Fin size × Fin 8,
      (peek bytes place.1).toNat.testBit place.2 = bits place := by
  refine ⟨Vector.ofFn fun byte => UInt8.ofNat (Nat.ofBits fun bit => bits (byte, bit)), ?_⟩
  rintro ⟨byte, bit⟩
  have hlt := Nat.ofBits_lt_two_pow fun bit => bits (byte, bit)
  rw [peek_of_lt _ byte.isLt, Vector.getElem_ofFn, UInt8.toNat_ofNat', Nat.mod_eq_of_lt hlt,
    Nat.testBit_ofBits_lt _ _ bit.isLt]

/-- Where the pieces tile the block, its bytes and the numbers in their ranges determine
each other. -/
theorem bijOn_unpack (h : layout.Tiles size) :
    Set.BijOn (fun bytes : Vector UInt8 size => layout.unpack bytes) Set.univ
      {values | ∀ field, values field ∈ layout.range field} := by
  have hdecode := fun field => (layout.coding field).bijOn_decode (layout.width field)
  have hlt := fun (bytes : Vector UInt8 size) field => Piece.readAll_lt bytes (layout.pieces field)
  refine ⟨?_, ?_, ?_⟩
  · intro bytes _ field
    exact (hdecode field).mapsTo (hlt bytes field)
  · intro bytes _ bytes' _ heq
    refine bytes_ext fun byte bit => ?_
    obtain ⟨⟨field, k⟩, hplace⟩ := h.place_bijective.surjective (byte, bit)
    have hraw : Piece.readAll bytes (layout.pieces field) =
        Piece.readAll bytes' (layout.pieces field) :=
      (hdecode field).injOn (hlt bytes field) (hlt bytes' field) (congrFun heq field)
    have hbit := congrArg (fun raw => raw.testBit k) hraw
    simp only [Piece.testBit_readAll _ k.isLt] at hbit
    obtain ⟨rfl, rfl⟩ := Prod.mk.inj hplace
    exact hbit
  · intro values hvalues
    choose raw hraw hvalue using fun field => (hdecode field).surjOn (hvalues field)
    let place := Equiv.ofBijective h.place h.place_bijective
    obtain ⟨bytes, hbytes⟩ := exists_bytes fun p =>
      (raw (place.symm p).1).testBit (place.symm p).2
    refine ⟨bytes, Set.mem_univ _, ?_⟩
    funext field
    have hread : Piece.readAll bytes (layout.pieces field) = raw field := by
      refine Nat.eq_of_testBit_eq fun k => ?_
      rcases Nat.lt_or_ge k (layout.width field) with hk | hk
      · have hbit := hbytes (place ⟨field, ⟨k, hk⟩⟩)
        rw [place.symm_apply_apply] at hbit
        rw [Piece.testBit_readAll bytes hk]
        exact hbit
      · have hpow := Nat.pow_le_pow_right (by decide : 0 < 2) hk
        rw [Nat.testBit_lt_two_pow ((hlt bytes field).trans_le hpow),
          Nat.testBit_lt_two_pow ((hraw field).trans_le hpow)]
    show layout.unpack bytes field = values field
    unfold unpack
    rw [hread]
    exact hvalue field

end BitLayout

end Foundation

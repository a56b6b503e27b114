import Mathlib.Data.Nat.Bitwise
import Mathlib.Tactic.Ring

/-!
# Fields of a word

Masks, shifts and disjunctions of words, as the arithmetic they are when the fields do not
overlap: a mask of low bits is a remainder, a shift right a quotient, and fields side by
side a sum. `lane` is a byte of a word of 32 bits; where no bit crosses from one byte into
another, arithmetic on the word is arithmetic on each (`lane_shiftRight`, `lane_or_shiftLeft`).
-/

namespace Foundation

namespace Bits

-- ---------------------------------------------------------------------------
-- Natural numbers
-- ---------------------------------------------------------------------------

/-- The fields of a word side by side. -/
theorem or_eq_add {k n : ℕ} (a : ℕ) (h : n < 2 ^ k) : a * 2 ^ k ||| n = a * 2 ^ k + n := by
  rw [Nat.mul_comm, ← Nat.two_pow_add_eq_or_of_lt h]

theorem and_two_pow_eq (n k : ℕ) : n &&& 2 ^ k = n / 2 ^ k % 2 * 2 ^ k := by
  rw [Nat.and_two_pow, Nat.testBit_eq_decide_div_mod_eq]
  rcases Nat.mod_two_eq_zero_or_one (n / 2 ^ k) with h | h
  · simp [h]
  · simp [h]

-- ---------------------------------------------------------------------------
-- Bytes
-- ---------------------------------------------------------------------------

theorem toNat_and_mask (byte : UInt8) {mask : UInt8} {w : ℕ} (h : mask.toNat = 2 ^ w - 1) :
    (byte &&& mask).toNat = byte.toNat % 2 ^ w := by
  rw [UInt8.toNat_and, h, Nat.and_two_pow_sub_one_eq_mod]

theorem toNat_shiftRight (byte : UInt8) {shift : UInt8} {k : ℕ} (h : shift.toNat = k) (hk : k < 8) :
    (byte >>> shift).toNat = byte.toNat / 2 ^ k := by
  rw [UInt8.toNat_shiftRight, h, Nat.mod_eq_of_lt hk, Nat.shiftRight_eq_div_pow]

/-- The bits from `k` on that a mask leaves. -/
theorem toNat_shiftRight_and_mask (byte : UInt8) {mask shift : UInt8} {k w : ℕ}
    (hmask : mask.toNat = 2 ^ w - 1) (h : shift.toNat = k) (hk : k < 8) :
    ((byte >>> shift) &&& mask).toNat = byte.toNat / 2 ^ k % 2 ^ w := by
  rw [toNat_and_mask _ hmask, toNat_shiftRight byte h hk]

/-- A low field under a high one. -/
theorem toNat_or_shiftLeft {low high shift : UInt8} {k : ℕ} (h : shift.toNat = k) (hk : k < 8)
    (hlow : low.toNat < 2 ^ k) (hhigh : high.toNat * 2 ^ k < 2 ^ 8) :
    (low ||| (high <<< shift)).toNat = high.toNat * 2 ^ k + low.toNat := by
  rw [UInt8.toNat_or, UInt8.toNat_shiftLeft, h, Nat.mod_eq_of_lt hk, Nat.shiftLeft_eq,
    Nat.mod_eq_of_lt hhigh, Nat.lor_comm, or_eq_add _ hlow]

/-- The test of one bit. -/
theorem and_bit_ne_zero_iff (byte : UInt8) {mask : UInt8} {k : ℕ} (h : mask.toNat = 2 ^ k) :
    byte &&& mask ≠ 0 ↔ byte.toNat.testBit k = true := by
  have hpow := Nat.two_pow_pos k
  rw [Nat.testBit_eq_decide_div_mod_eq, decide_eq_true_iff, ne_eq, ← UInt8.toNat_inj, UInt8.toNat_and,
    h, and_two_pow_eq, UInt8.toNat_zero, Nat.mul_eq_zero, not_or]
  omega

/-- A mask of one bit, moved up. -/
theorem toNat_bit_shiftLeft {mask shift : UInt8} {j k : ℕ} (hmask : mask.toNat = 2 ^ j)
    (h : shift.toNat = k) (hk : j + k < 8) : (mask <<< shift).toNat = 2 ^ (j + k) := by
  have hlt : 2 ^ (j + k) < 2 ^ 8 := Nat.pow_lt_pow_right (by decide) hk
  have hmod : k % 8 = k := Nat.mod_eq_of_lt (by omega)
  rw [UInt8.toNat_shiftLeft, h, hmask, hmod, Nat.shiftLeft_eq, ← Nat.pow_add, Nat.mod_eq_of_lt hlt]

theorem toInt_toInt8 (byte : UInt8) : byte.toInt8.toInt = (byte.toNat : ℤ).bmod (2 ^ 8) :=
  BitVec.toInt_eq_toNat_bmod byte.toBitVec

/-- A byte that is below the sign bit. -/
theorem toInt_toInt8_of_lt {byte : UInt8} (h : byte.toNat < 128) : byte.toInt8.toInt = byte.toNat := by
  rw [toInt_toInt8]
  exact Int.bmod_eq_of_le (by omega) (by omega)

-- ---------------------------------------------------------------------------
-- Bytes of a word
-- ---------------------------------------------------------------------------

/-- A byte of a word, the lowest one first. -/
def lane (word : UInt32) (j : ℕ) : ℕ := word.toNat / 256 ^ j % 256

theorem testBit_lane (word : UInt32) (j k : ℕ) :
    (lane word j).testBit k = (decide (k < 8) && word.toNat.testBit (8 * j + k)) := by
  unfold lane
  rw [show 256 = 2 ^ 8 from rfl, ← Nat.pow_mul, Nat.testBit_mod_two_pow, Nat.testBit_div_two_pow,
    Nat.add_comm]

/-- The bits that stay in their byte under a shift. -/
theorem lane_shiftRight (word : UInt32) {shift : UInt32} (j : ℕ) {k w : ℕ} (h : shift.toNat = k)
    (hk : k + w ≤ 8) : lane (word >>> shift) j % 2 ^ w = lane word j / 2 ^ k % 2 ^ w := by
  refine Nat.eq_of_testBit_eq fun i => ?_
  rw [Nat.testBit_mod_two_pow, Nat.testBit_mod_two_pow, Nat.testBit_div_two_pow, testBit_lane,
    testBit_lane, UInt32.toNat_shiftRight, h, Nat.mod_eq_of_lt (by omega), Nat.testBit_shiftRight]
  by_cases hi : i < w
  · rw [decide_eq_true (show i < 8 by omega), decide_eq_true (show i + k < 8 by omega),
      show k + (8 * j + i) = 8 * j + (i + k) by omega]
  · rw [decide_eq_false hi, Bool.false_and, Bool.false_and]

/-- The low `w` bits of every byte of a word. -/
def IsLaneMask (mask : UInt32) (w : ℕ) : Prop :=
  ∀ j < 4, ∀ k < 8, mask.toNat.testBit (8 * j + k) = decide (k < w)

instance (mask : UInt32) (w : ℕ) : Decidable (IsLaneMask mask w) := by
  unfold IsLaneMask
  infer_instance

/-- Low fields of the bytes of one word under fields of those of another. -/
theorem lane_or_shiftLeft (x y : UInt32) {mask mask' shift : UInt32} {w w' : ℕ}
    (hmask : IsLaneMask mask w) (hmask' : IsLaneMask mask' w') (hshift : shift.toNat = w)
    (hw : w + w' ≤ 8) {j : ℕ} (hj : j < 4) :
    lane ((x &&& mask) ||| ((y &&& mask') <<< shift)) j =
      2 ^ w * (lane y j % 2 ^ w') + lane x j % 2 ^ w := by
  refine Nat.eq_of_testBit_eq fun k => ?_
  rw [Nat.testBit_two_pow_mul_add _ (Nat.mod_lt _ (Nat.two_pow_pos w)), testBit_lane,
    UInt32.toNat_or, UInt32.toNat_shiftLeft, UInt32.toNat_and, UInt32.toNat_and, hshift,
    Nat.mod_eq_of_lt (show w < 32 by omega), Nat.testBit_or, Nat.testBit_and, Nat.testBit_mod_two_pow,
    Nat.testBit_shiftLeft, Nat.testBit_and, Nat.testBit_mod_two_pow, Nat.testBit_mod_two_pow,
    testBit_lane, testBit_lane]
  by_cases hk : k < 8
  · rw [hmask j hj k hk, decide_eq_true hk, decide_eq_true (show 8 * j + k < 32 by omega),
      decide_eq_true (show k - w < 8 by omega)]
    by_cases hlow : k < w
    · -- what the shift brings here was masked out one byte below
      have hnone : (decide (8 * j + k ≥ w) && (y.toNat.testBit (8 * j + k - w) &&
          mask'.toNat.testBit (8 * j + k - w))) = false := by
        by_cases hbelow : 8 * j + k ≥ w
        · have hbit := hmask' (j - 1) (by omega) (8 + k - w) (by omega)
          rw [show 8 * (j - 1) + (8 + k - w) = 8 * j + k - w by omega,
            decide_eq_false (show ¬8 + k - w < w' by omega)] at hbit
          rw [hbit, Bool.and_false, Bool.and_false]
        · rw [decide_eq_false hbelow, Bool.false_and]
      rw [hnone, decide_eq_true hlow, if_pos hlow]
      simp
    · have hbit := hmask' j hj (k - w) (by omega)
      rw [show 8 * j + (k - w) = 8 * j + k - w by omega] at hbit
      rw [hbit, decide_eq_false hlow, decide_eq_true (show 8 * j + k ≥ w by omega), if_neg hlow,
        show 8 * j + (k - w) = 8 * j + k - w by omega]
      simp [Bool.and_comm]
  · rw [decide_eq_false hk, decide_eq_false (show ¬k < w by omega),
      decide_eq_false (show ¬k - w < w' by omega)]
    simp

end Bits

end Foundation

import Mathlib.Data.Int.Log
import Mathlib.Data.Rat.Floor
import Mathlib.Tactic.Linarith
import Mathlib.Tactic.Positivity
import Mathlib.Tactic.Ring
import Mathlib.Tactic.FieldSimp

/-!
# Rounding to nearest

`roundHalfEven` rounds a rational to an integer, ties to even; `toDouble` rounds
it to the 53 significant bits of a double in the same way. A program that passes a
real quantity through a double is modelled exactly by these, and the theorems say
what the rounding cannot do: move a number past an integer it stands on one side
of, or move it by more than half a unit in its last place.
-/

namespace Foundation

namespace Rounding

/-- The nearest integer; of two that are equally near, the even one. -/
def roundHalfEven (x : ℚ) : ℤ :=
  if x - ⌊x⌋ < 1 / 2 then ⌊x⌋
  else if 1 / 2 < x - ⌊x⌋ then ⌊x⌋ + 1
  else if ⌊x⌋ % 2 = 0 then ⌊x⌋
  else ⌊x⌋ + 1

/-- It is never off by more than a half. -/
theorem roundHalfEven_near (x : ℚ) : |(roundHalfEven x : ℚ) - x| ≤ 1 / 2 := by
  have hfract : 0 ≤ x - ⌊x⌋ ∧ x - ⌊x⌋ < 1 :=
    ⟨sub_nonneg.mpr (Int.floor_le x), sub_lt_iff_lt_add'.mpr (Int.lt_floor_add_one x)⟩
  obtain ⟨hnonneg, hlt⟩ := hfract
  rw [abs_sub_le_iff, roundHalfEven]
  split_ifs
  · exact ⟨by linarith, by linarith⟩
  · push_cast
    exact ⟨by linarith, by linarith⟩
  · exact ⟨by linarith, by linarith⟩
  · push_cast
    exact ⟨by linarith, by linarith⟩

theorem le_roundHalfEven {x : ℚ} {n : ℤ} (h : (n : ℚ) ≤ x) : n ≤ roundHalfEven x := by
  have hfloor : n ≤ ⌊x⌋ := Int.le_floor.mpr h
  unfold roundHalfEven
  split_ifs <;> omega

theorem roundHalfEven_le {x : ℚ} {n : ℤ} (h : x ≤ n) : roundHalfEven x ≤ n := by
  rcases eq_or_lt_of_le h with rfl | hlt
  · -- an integer is its own floor
    unfold roundHalfEven
    rw [if_pos (by rw [Int.floor_intCast]; norm_num), Int.floor_intCast]
  · have hfloor : ⌊x⌋ < n := Int.floor_lt.mpr hlt
    unfold roundHalfEven
    split_ifs <;> omega

/-- The unit in the last place of a double near `x`. -/
def doubleUlp (x : ℚ) : ℚ := 2 ^ (Int.log 2 |x| - 52)

/-- The double nearest to `x`, for `x` in the range of normal numbers. -/
def toDouble (x : ℚ) : ℚ := roundHalfEven (x / doubleUlp x) * doubleUlp x

theorem doubleUlp_pos (x : ℚ) : 0 < doubleUlp x := zpow_pos (by norm_num) _

/-- A positive number has its leading bit 52 places above its last. -/
theorem two_pow_mul_doubleUlp_le {x : ℚ} (hx : 0 < x) : 2 ^ 52 * doubleUlp x ≤ x := by
  have hlog := Int.zpow_log_le_self (R := ℚ) (b := 2) (by norm_num) hx
  unfold doubleUlp
  rw [abs_of_pos hx, ← zpow_natCast, ← zpow_add₀ (by norm_num)]
  simpa using hlog

theorem toDouble_near {x : ℚ} (hx : 0 < x) : |toDouble x - x| ≤ x / 2 ^ 53 := by
  have hulp := doubleUlp_pos x
  have hnear := roundHalfEven_near (x / doubleUlp x)
  have hsplit : toDouble x - x =
      ((roundHalfEven (x / doubleUlp x) : ℚ) - x / doubleUlp x) * doubleUlp x := by
    unfold toDouble
    field_simp
  have hlead := two_pow_mul_doubleUlp_le hx
  calc |toDouble x - x|
      = |(roundHalfEven (x / doubleUlp x) : ℚ) - x / doubleUlp x| * doubleUlp x := by
        rw [hsplit, abs_mul, abs_of_pos hulp]
    _ ≤ 1 / 2 * doubleUlp x := mul_le_mul_of_nonneg_right hnear hulp.le
    _ ≤ x / 2 ^ 53 := by
      rw [le_div_iff₀ (by norm_num)]
      linarith

theorem toDouble_pos {x : ℚ} (hx : 0 < x) : 0 < toDouble x := by
  have hulp := doubleUlp_pos x
  have hlead : ((2 ^ 52 : ℤ) : ℚ) ≤ x / doubleUlp x := by
    rw [le_div_iff₀ hulp]
    exact_mod_cast two_pow_mul_doubleUlp_le hx
  have hround := le_roundHalfEven hlead
  have hround' : (0 : ℚ) < roundHalfEven (x / doubleUlp x) := by
    exact_mod_cast lt_of_lt_of_le (by norm_num) hround
  exact mul_pos hround' hulp

/-- An integer of at most 53 bits is a double, so rounding does not pass it. -/
theorem toDouble_le {x : ℚ} (hx : 0 < x) {n : ℤ} (hn : n < 2 ^ 53) (h : x ≤ n) :
    toDouble x ≤ n := by
  have hulp := doubleUlp_pos x
  -- the last place of `x` divides one
  have hlog : Int.log 2 |x| ≤ 52 := by
    have hlt : x < (2 : ℕ) ^ (53 : ℤ) := by
      have hn' : (n : ℚ) < 2 ^ 53 := by exact_mod_cast hn
      calc x ≤ n := h
        _ < 2 ^ 53 := hn'
        _ = ((2 : ℕ) : ℚ) ^ (53 : ℤ) := by norm_num
    rw [abs_of_pos hx]
    have := (Int.lt_zpow_iff_log_lt (by norm_num) hx).mp hlt
    omega
  obtain ⟨k, hk⟩ := Int.eq_ofNat_of_zero_le (show 0 ≤ 52 - Int.log 2 |x| by omega)
  have hinv : 1 / doubleUlp x = ((2 ^ k : ℤ) : ℚ) := by
    unfold doubleUlp
    rw [show Int.log 2 |x| - 52 = -(k : ℤ) by omega, zpow_neg, zpow_natCast, one_div, inv_inv]
    norm_num
  have hscaled : x / doubleUlp x ≤ ((n * 2 ^ k : ℤ) : ℚ) := by
    rw [Int.cast_mul, ← hinv, mul_one_div]
    exact div_le_div_of_nonneg_right h hulp.le
  have hround : (roundHalfEven (x / doubleUlp x) : ℚ) ≤ ((n * 2 ^ k : ℤ) : ℚ) := by
    exact_mod_cast roundHalfEven_le hscaled
  calc toDouble x ≤ ((n * 2 ^ k : ℤ) : ℚ) * doubleUlp x :=
        mul_le_mul_of_nonneg_right hround hulp.le
    _ = n := by
      rw [Int.cast_mul, ← hinv]
      field_simp

end Rounding

end Foundation

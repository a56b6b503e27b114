import CamelidEnterprise.Engine.KvCache
import CamelidEnterprise.Foundation.Bits
import CamelidEnterprise.Foundation.Nearest

/-!
# Camelid Enterprise — half precision

The conversions between single and half precision of
`crates/engine-core/src/forward/kv_cache.rs` and
`crates/engine-core/src/tensor/blocks.rs`, against the numbers their bits stand for.

* `f32ToF16Kv_toNat`, `f32ToF16Bits_toNat` — both conversions compute one function of
  the fields of a word, `narrowed`;
* `narrowed_nearest` — which is the nearest half, ties to even;
* `f16ToF32Kv_exact` — the way back is exact;
* `half_precision_ieee` — both directions, and what they make of the rounding of the
  key/value cache.
-/

namespace CamelidEnterprise

open Foundation Foundation.Bits

-- ---------------------------------------------------------------------------
-- Fields of a word
-- ---------------------------------------------------------------------------

/-- The sign of a single, in the place of a half's. -/
theorem sign_toNat (bits : UInt32) :
    ((bits >>> 16).toUInt16 &&& 0x8000).toNat = bits.toNat / 2 ^ 31 * 2 ^ 15 := by
  have hlt := bits.toNat_lt
  have hmask := and_two_pow_eq (bits.toNat / 2 ^ 16 % 2 ^ 16) 15
  rw [UInt16.toNat_and, UInt32.toNat_toUInt16, UInt32.toNat_shiftRight, Nat.shiftRight_eq_div_pow]
  refine hmask.trans ?_
  omega

theorem exponent_toNat (bits : UInt32) :
    ((bits >>> 23) &&& 0xff).toNat = bits.toNat / 2 ^ 23 % 2 ^ 8 := by
  rw [UInt32.toNat_and, UInt32.toNat_shiftRight, Nat.shiftRight_eq_div_pow]
  exact Nat.and_two_pow_sub_one_eq_mod _ 8

theorem mantissa_toNat (bits : UInt32) : (bits &&& 0x007fffff).toNat = bits.toNat % 2 ^ 23 := by
  rw [UInt32.toNat_and]
  exact Nat.and_two_pow_sub_one_eq_mod _ 23

/-- A half by its sign and its magnitude. -/
theorem or_sign_toNat {sign magnitude : UInt16} {s m : Nat} (hsign : sign.toNat = s * 2 ^ 15)
    (hmagnitude : magnitude.toNat = m) (hm : m < 2 ^ 15) :
    (sign ||| magnitude).toNat = s * 2 ^ 15 + m := by
  rw [UInt16.toNat_or, hsign, hmagnitude, or_eq_add s hm]

theorem pred_toNat {word : UInt32} {n : Nat} (h : word.toNat = n) (hpos : 0 < n) :
    (word - 1).toNat = n - 1 := by
  rw [UInt32.toNat_sub_of_le _ _ (UInt32.le_iff_toNat_le.mpr (by rw [h, UInt32.toNat_one]; omega)),
    h, UInt32.toNat_one]

theorem shiftLeft_one_toNat {shift : UInt32} {k : Nat} (hshift : shift.toNat = k) (hlt : k < 32) :
    ((1 : UInt32) <<< shift).toNat = 2 ^ k := by
  have hpow : 2 ^ k < 2 ^ 32 := Nat.pow_lt_pow_right (by decide) hlt
  rw [UInt32.toNat_shiftLeft, hshift, Nat.mod_eq_of_lt hlt, UInt32.toNat_one, Nat.shiftLeft_eq,
    Nat.one_mul, Nat.mod_eq_of_lt hpow]

theorem and_one_ne_zero_iff (half : UInt16) : half &&& 1 ≠ 0 ↔ half.toNat % 2 = 1 := by
  have hone : half.toNat &&& 1 = half.toNat % 2 := Nat.and_two_pow_sub_one_eq_mod _ 1
  rw [ne_eq, ← UInt16.toNat_inj, UInt16.toNat_and, UInt16.toNat_one, hone, UInt16.toNat_zero]
  omega

theorem and_one_eq_one_iff (half : UInt16) : half &&& 1 = 1 ↔ half.toNat % 2 = 1 := by
  have hone : half.toNat &&& 1 = half.toNat % 2 := Nat.and_two_pow_sub_one_eq_mod _ 1
  rw [← UInt16.toNat_inj, UInt16.toNat_and, UInt16.toNat_one, hone]

/-- The test of the key/value conversion: the first bit that is dropped, and whether any
other is set. -/
theorem roundsUp_of_guard {m guard below : UInt32} {shift : Nat} {odd : Prop} (hshift : 0 < shift)
    (hguard : guard.toNat = 2 ^ (shift - 1)) (hbelow : below.toNat = 2 ^ (shift - 1) - 1)
    (hodd : odd ↔ m.toNat / 2 ^ shift % 2 = 1) :
    (m &&& guard ≠ 0 ∧ (m &&& below ≠ 0 ∨ odd)) ↔ roundsUp m.toNat shift := by
  have hfirst : m &&& guard ≠ 0 ↔ m.toNat / 2 ^ (shift - 1) % 2 = 1 := by
    rw [ne_eq, ← UInt32.toNat_inj, UInt32.toNat_and, hguard, and_two_pow_eq, UInt32.toNat_zero,
      Nat.mul_eq_zero, not_or]
    have hpow := Nat.two_pow_pos (shift - 1)
    omega
  have hrest : m &&& below ≠ 0 ↔ m.toNat % 2 ^ (shift - 1) ≠ 0 := by
    rw [ne_eq, ← UInt32.toNat_inj, UInt32.toNat_and, hbelow, Nat.and_two_pow_sub_one_eq_mod,
      UInt32.toNat_zero]
  rw [hfirst, hrest, hodd, roundsUp_iff_guard hshift]

/-- The test of the general conversion: all the bits that are dropped against half of
the last kept one. -/
theorem roundsUp_of_rest {rest halfway : UInt32} {m shift : Nat} {odd : Prop}
    (hrest : rest.toNat = m % 2 ^ shift) (hhalfway : halfway.toNat = 2 ^ (shift - 1))
    (hodd : odd ↔ m / 2 ^ shift % 2 = 1) :
    (rest > halfway ∨ (rest = halfway ∧ odd)) ↔ roundsUp m shift := by
  unfold roundsUp
  rw [gt_iff_lt, UInt32.lt_iff_toNat_lt, ← UInt32.toNat_inj, hrest, hhalfway, hodd]

-- ---------------------------------------------------------------------------
-- Narrowing
-- ---------------------------------------------------------------------------

/-- The magnitude of the half for the magnitude of a single: the significand shifted to
the places the half has for its exponent. -/
def narrowed (magnitude : Nat) : Nat :=
  let exponent := magnitude / 2 ^ 23
  let significand := magnitude % 2 ^ 23 + 2 ^ 23
  if 143 ≤ exponent then Format.half.infinity
  else if exponent < 102 then 0
  else if exponent ≤ 112 then shiftHalfEven significand (126 - exponent)
  else (exponent - 113) * 2 ^ 10 + shiftHalfEven significand 13

/-- A significand shifted to a subnormal half. -/
theorem significand_shift_lt {mantissa shift : Nat} (hmantissa : mantissa < 2 ^ 23)
    (hshift : 14 ≤ shift) : (mantissa + 2 ^ 23) / 2 ^ shift < 2 ^ 10 := by
  rw [Nat.div_lt_iff_lt_mul (Nat.two_pow_pos shift)]
  have hpow : 2 ^ 14 ≤ 2 ^ shift := Nat.pow_le_pow_right (by decide) hshift
  omega

theorem narrowed_le (magnitude : Nat) : narrowed magnitude ≤ Format.half.infinity := by
  have hinfinity : Format.half.infinity = 31 * 2 ^ 10 := rfl
  have hmantissa : magnitude % 2 ^ 23 < 2 ^ 23 := Nat.mod_lt _ (Nat.two_pow_pos _)
  unfold narrowed
  dsimp only
  split
  · exact le_rfl
  split
  · exact Nat.zero_le _
  split
  · have hround := shiftHalfEven_le (magnitude % 2 ^ 23 + 2 ^ 23) (126 - magnitude / 2 ^ 23)
    have hlt := significand_shift_lt hmantissa (show 14 ≤ 126 - magnitude / 2 ^ 23 by omega)
    omega
  · have hround := shiftHalfEven_le (magnitude % 2 ^ 23 + 2 ^ 23) 13
    omega

/-- The significand with its leading bit. -/
theorem leadingBit_toNat {mant : UInt32} (h : mant.toNat < 2 ^ 23) :
    (mant ||| 0x00800000).toNat = mant.toNat + 2 ^ 23 := by
  have hor := or_eq_add 1 h
  rw [UInt32.toNat_or, Nat.lor_comm, Nat.add_comm]
  rwa [Nat.one_mul] at hor

/-- The shift for a subnormal half, from 14 to 24. -/
theorem shift_toNat {exponent : Nat} (h : 102 ≤ exponent) (h' : exponent ≤ 112) :
    (UInt32.ofNat (14 - ((exponent : Int) - 127 + 15)).toNat).toNat = 126 - exponent := by
  rw [UInt32.toNat_ofNat', Nat.mod_eq_of_lt (by omega)]
  omega

theorem shiftRight_toNat {m shift : UInt32} {k : Nat} (hm : m.toNat < 2 ^ 24)
    (hshift : shift.toNat = k) (hlow : 8 ≤ k) (hhigh : k < 32) :
    (m >>> shift).toUInt16.toNat = m.toNat / 2 ^ k := by
  have hlt : m.toNat / 2 ^ k < 2 ^ 16 := by
    rw [Nat.div_lt_iff_lt_mul (Nat.two_pow_pos k)]
    have hpow : 2 ^ 8 ≤ 2 ^ k := Nat.pow_le_pow_right (by decide) hlow
    omega
  rw [UInt32.toNat_toUInt16, UInt32.toNat_shiftRight, hshift, Nat.mod_eq_of_lt hhigh,
    Nat.shiftRight_eq_div_pow, Nat.mod_eq_of_lt hlt]

/-- The kept bits, one up where the dropped ones say so. -/
theorem rounded_toNat {half : UInt16} {up : Prop} [Decidable up] {m shift : Nat} (base : Nat)
    (hhalf : half.toNat = base + m / 2 ^ shift) (hlt : half.toNat + 1 < 2 ^ 16)
    (hup : up ↔ roundsUp m shift) :
    (if up then half + 1 else half).toNat = base + shiftHalfEven m shift := by
  unfold shiftHalfEven
  by_cases h : roundsUp m shift
  · rw [if_pos (hup.mpr h), if_pos h, UInt16.toNat_add, UInt16.toNat_one, Nat.mod_eq_of_lt hlt, hhalf,
      Nat.add_assoc]
  · rw [if_neg (mt hup.mp h), if_neg h, hhalf, Nat.add_zero]

/-- The leading bit of a significand is kept, and its place is even. -/
theorem roundsUp_leadingBit (mantissa : Nat) :
    roundsUp mantissa 13 ↔ roundsUp (mantissa + 2 ^ 23) 13 := by
  unfold roundsUp
  omega

/-- The leading bit counts as one more exponent. -/
theorem normal_index {exponent : Nat} (h : 112 < exponent) (mantissa : Nat) :
    (exponent - 113) * 2 ^ 10 + (mantissa + 2 ^ 23) / 2 ^ 13 =
      (exponent - 112) * 2 ^ 10 + mantissa / 2 ^ 13 := by
  omega

/-- The exponent of a normal half. -/
theorem halfExponent_toNat {exponent : Nat} (h : 112 < exponent) (h' : exponent < 143) :
    (UInt16.ofNat ((exponent : Int) - 127 + 15).toNat <<< 10).toNat = (exponent - 112) * 2 ^ 10 := by
  have hexponent : ((exponent : Int) - 127 + 15).toNat = exponent - 112 := by omega
  have hmod : (exponent - 112) % 2 ^ 16 = exponent - 112 := Nat.mod_eq_of_lt (by omega)
  have hten : (10 : UInt16).toNat % 16 = 10 := by decide
  have hfits : (exponent - 112) * 2 ^ 10 < 2 ^ 16 := by omega
  rw [hexponent, UInt16.toNat_shiftLeft, UInt16.toNat_ofNat', hmod, hten, Nat.shiftLeft_eq,
    Nat.mod_eq_of_lt hfits]

/-- The kept bits of a mantissa under the sign and the exponent of a normal half, as the
significand of which they are the last. -/
theorem or_fields_toNat {fields kept : UInt16} {s exponent mantissa : Nat} (h : 112 < exponent)
    (hfields : fields.toNat = s * 2 ^ 15 + (exponent - 112) * 2 ^ 10)
    (hkept : kept.toNat = mantissa / 2 ^ 13) (hmantissa : mantissa < 2 ^ 23) :
    (fields ||| kept).toNat =
      s * 2 ^ 15 + (exponent - 113) * 2 ^ 10 + (mantissa + 2 ^ 23) / 2 ^ 13 := by
  have hlt : mantissa / 2 ^ 13 < 2 ^ 10 := by omega
  have hplaces : s * 2 ^ 15 + (exponent - 112) * 2 ^ 10 = (s * 2 ^ 5 + (exponent - 112)) * 2 ^ 10 := by
    ring
  rw [UInt16.toNat_or, hfields, hkept, hplaces, or_eq_add _ hlt, ← hplaces, Nat.add_assoc,
    Nat.add_assoc, normal_index h]

theorem f32ToF16Kv_toNat {value : F32} (h : value.bits.toNat % 2 ^ 31 ≤ Format.single.infinity) :
    (f32ToF16Kv value).toNat =
      value.bits.toNat / 2 ^ 31 * 2 ^ 15 + narrowed (value.bits.toNat % 2 ^ 31) := by
  have hinfinity : Format.single.infinity = 255 * 2 ^ 23 := rfl
  have hsign := sign_toNat value.bits
  have hmantissa := mantissa_toNat value.bits
  have hexponent : value.bits.toNat / 2 ^ 23 % 2 ^ 8 = value.bits.toNat % 2 ^ 31 / 2 ^ 23 := by omega
  have hmod : value.bits.toNat % 2 ^ 23 = value.bits.toNat % 2 ^ 31 % 2 ^ 23 := by omega
  unfold f32ToF16Kv narrowed
  dsimp only
  rw [exponent_toNat, hexponent]
  rw [hmod] at hmantissa
  have hs : value.bits.toNat / 2 ^ 31 ≤ 1 := by
    have hlt := value.bits.toNat_lt
    omega
  generalize value.bits.toNat % 2 ^ 31 = magnitude at *
  generalize value.bits.toNat / 2 ^ 31 = s at *
  generalize (value.bits >>> 16).toUInt16 &&& 0x8000 = sign at *
  generalize value.bits &&& 0x007fffff = mant at *
  have hmant : magnitude % 2 ^ 23 < 2 ^ 23 := Nat.mod_lt _ (Nat.two_pow_pos _)
  have hsplit := Nat.div_add_mod' magnitude (2 ^ 23)
  have hexp : magnitude / 2 ^ 23 ≤ 255 := by omega
  generalize magnitude / 2 ^ 23 = exponent at *
  -- infinity, too large for a half, too small for one, subnormal, normal: as the source has them
  by_cases hlast : exponent = 255
  · have hzero : mant = 0 := UInt32.toNat_inj.mp (by rw [hmantissa, UInt32.toNat_zero]; omega)
    rw [if_pos (by omega), if_pos hzero, if_pos (by omega)]
    exact or_sign_toNat hsign rfl (by decide)
  rw [if_neg (by omega)]
  by_cases hlarge : 143 ≤ exponent
  · rw [if_pos (by omega), if_pos hlarge]
    exact or_sign_toNat hsign rfl (by decide)
  rw [if_neg (by omega), if_neg hlarge]
  by_cases hsmall : exponent < 102
  · rw [if_pos (by omega), if_pos hsmall, hsign, Nat.add_zero]
  rw [if_neg (by omega), if_neg hsmall]
  by_cases hsubnormal : exponent ≤ 112
  · rw [if_pos (by omega), if_pos hsubnormal]
    have hshift := shift_toNat (by omega) hsubnormal
    have hlead := leadingBit_toNat (hmantissa ▸ hmant)
    have hlt := significand_shift_lt hmant (show 14 ≤ 126 - exponent by omega)
    generalize UInt32.ofNat (14 - ((exponent : Int) - 127 + 15)).toNat = shift at *
    generalize mant ||| 0x00800000 = mantissa at *
    rw [← hmantissa, ← hlead] at hlt ⊢
    have hhalf := shiftRight_toNat (show mantissa.toNat < 2 ^ 24 by omega) hshift (by omega)
      (by omega)
    have hbit := shiftLeft_one_toNat (pred_toNat hshift (by omega)) (by omega)
    -- the source rounds by the guard bit, and by sticky bits or an odd result behind it
    have hup := roundsUp_of_guard (m := mantissa) (by omega) hbit
      (pred_toNat hbit (Nat.two_pow_pos _)) ((and_one_ne_zero_iff _).trans (by rw [hhalf]))
    refine or_sign_toNat hsign ?_ ?_
    · rw [← Nat.zero_add (shiftHalfEven _ _)]
      exact rounded_toNat 0 (hhalf.trans (Nat.zero_add _).symm) (by omega) hup
    · have hle := shiftHalfEven_le mantissa.toNat (126 - exponent)
      omega
  · rw [if_neg (by omega), if_neg hsubnormal]
    have hfield := halfExponent_toNat (show 112 < exponent by omega) (by omega)
    have hkept : (mant >>> 13).toUInt16.toNat = mant.toNat / 2 ^ 13 :=
      shiftRight_toNat (by omega) rfl (by omega) (by omega)
    have hhalf := or_fields_toNat (by omega) (or_sign_toNat hsign hfield (by omega)) hkept
      (by omega)
    generalize sign ||| (UInt16.ofNat ((exponent : Int) - 127 + 15).toNat <<< 10) |||
      (mant >>> 13).toUInt16 = half at hhalf ⊢
    have hup : (mant &&& 0x1000 ≠ 0 ∧ (mant &&& 0xfff ≠ 0 ∨ half &&& 1 ≠ 0)) ↔
        roundsUp mant.toNat 13 :=
      roundsUp_of_guard (by decide) (by decide) (by decide)
        ((and_one_ne_zero_iff half).trans (by rw [hhalf]; omega))
    rw [← Nat.add_assoc, ← hmantissa]
    exact rounded_toNat _ hhalf (by omega) (hup.trans (roundsUp_leadingBit _))

/-- The exponent and the kept bits of a normal half, still in a word of 32 bits. -/
theorem wideFields_toNat {frac : UInt32} {exponent : Nat} (h : 112 < exponent) (h' : exponent < 143)
    (hfrac : frac.toNat < 2 ^ 23) :
    ((UInt32.ofNat ((exponent : Int) - 127 + 15).toNat <<< 10) ||| (frac >>> 13)).toNat =
      (exponent - 113) * 2 ^ 10 + (frac.toNat + 2 ^ 23) / 2 ^ 13 := by
  have hexponent : ((exponent : Int) - 127 + 15).toNat = exponent - 112 := by omega
  have hmod : (exponent - 112) % 2 ^ 32 = exponent - 112 := Nat.mod_eq_of_lt (by omega)
  have hten : (10 : UInt32).toNat % 32 = 10 := by decide
  have hthirteen : (13 : UInt32).toNat % 32 = 13 := by decide
  have hfits : (exponent - 112) * 2 ^ 10 < 2 ^ 32 := by omega
  have hlt : frac.toNat / 2 ^ 13 < 2 ^ 10 := by omega
  rw [hexponent, UInt32.toNat_or, UInt32.toNat_shiftLeft, UInt32.toNat_shiftRight,
    UInt32.toNat_ofNat', hmod, hten, hthirteen, Nat.shiftLeft_eq, Nat.shiftRight_eq_div_pow,
    Nat.mod_eq_of_lt hfits, or_eq_add _ hlt, normal_index h]

theorem f32ToF16Bits_toNat {value : F32} (h : value.bits.toNat % 2 ^ 31 ≤ Format.single.infinity) :
    (f32ToF16Bits value).toNat =
      value.bits.toNat / 2 ^ 31 * 2 ^ 15 + narrowed (value.bits.toNat % 2 ^ 31) := by
  have hinfinity : Format.single.infinity = 255 * 2 ^ 23 := rfl
  have hsign := sign_toNat value.bits
  have hmantissa := mantissa_toNat value.bits
  have hexponent : value.bits.toNat / 2 ^ 23 % 2 ^ 8 = value.bits.toNat % 2 ^ 31 / 2 ^ 23 := by omega
  have hmod : value.bits.toNat % 2 ^ 23 = value.bits.toNat % 2 ^ 31 % 2 ^ 23 := by omega
  unfold f32ToF16Bits narrowed
  dsimp only
  rw [exponent_toNat, hexponent]
  rw [hmod] at hmantissa
  generalize value.bits.toNat % 2 ^ 31 = magnitude at *
  generalize value.bits.toNat / 2 ^ 31 = s at *
  generalize (value.bits >>> 16).toUInt16 &&& 0x8000 = sign at *
  generalize value.bits &&& 0x007fffff = frac at *
  have hmant : magnitude % 2 ^ 23 < 2 ^ 23 := Nat.mod_lt _ (Nat.two_pow_pos _)
  have hsplit := Nat.div_add_mod' magnitude (2 ^ 23)
  have hexp : magnitude / 2 ^ 23 ≤ 255 := by omega
  generalize magnitude / 2 ^ 23 = exponent at *
  -- the same five ranges
  by_cases hlast : exponent = 255
  · have hzero : frac = 0 := UInt32.toNat_inj.mp (by rw [hmantissa, UInt32.toNat_zero]; omega)
    rw [if_pos (by omega), if_neg (not_not.mpr hzero), if_pos (by omega), UInt16.or_zero]
    exact or_sign_toNat hsign rfl (by decide)
  rw [if_neg (by omega)]
  by_cases hlarge : 143 ≤ exponent
  · rw [if_pos (by omega), if_pos hlarge]
    exact or_sign_toNat hsign rfl (by decide)
  rw [if_neg (by omega), if_neg hlarge]
  by_cases hsmall : exponent < 102
  · rw [if_pos (by omega), if_pos hsmall, hsign, Nat.add_zero]
  rw [if_neg (by omega), if_neg hsmall]
  by_cases hsubnormal : exponent ≤ 112
  · rw [if_pos (by omega), if_pos hsubnormal]
    have hshift := shift_toNat (by omega) hsubnormal
    have hlead := leadingBit_toNat (hmantissa ▸ hmant)
    have hlt := significand_shift_lt hmant (show 14 ≤ 126 - exponent by omega)
    generalize UInt32.ofNat (14 - ((exponent : Int) - 127 + 15)).toNat = shift at *
    generalize frac ||| 0x00800000 = mant at *
    rw [← hmantissa, ← hlead] at hlt ⊢
    have hhalf := shiftRight_toNat (show mant.toNat < 2 ^ 24 by omega) hshift (by omega)
      (by omega)
    have hbit := shiftLeft_one_toNat (pred_toNat hshift (by omega)) (by omega)
    have hmask := pred_toNat (shiftLeft_one_toNat hshift (by omega)) (Nat.two_pow_pos _)
    have hrest : (mant &&& (((1 : UInt32) <<< shift) - 1)).toNat = mant.toNat % 2 ^ (126 - exponent) := by
      rw [UInt32.toNat_and, hmask, Nat.and_two_pow_sub_one_eq_mod]
    -- this one compares what is shifted out with one half
    have hup := roundsUp_of_rest hrest hbit ((and_one_eq_one_iff _).trans (by rw [hhalf]))
    refine or_sign_toNat hsign ?_ ?_
    · rw [← Nat.zero_add (shiftHalfEven _ _)]
      exact rounded_toNat 0 (hhalf.trans (Nat.zero_add _).symm) (by omega) hup
    · have hle := shiftHalfEven_le mant.toNat (126 - exponent)
      omega
  · rw [if_neg (by omega), if_neg hsubnormal]
    have hwide := wideFields_toNat (show 112 < exponent by omega) (by omega)
      (show frac.toNat < 2 ^ 23 by omega)
    have hrest : (frac &&& 0x1fff).toNat = frac.toNat % 2 ^ 13 := by
      rw [UInt32.toNat_and]
      exact Nat.and_two_pow_sub_one_eq_mod _ 13
    -- a carry out of the fraction goes into the exponent field, up to infinity
    generalize (UInt32.ofNat ((exponent : Int) - 127 + 15).toNat <<< 10) ||| (frac >>> 13) = half at *
    have hhalf : half.toUInt16.toNat =
        (exponent - 113) * 2 ^ 10 + (frac.toNat + 2 ^ 23) / 2 ^ 13 := by
      rw [UInt32.toNat_toUInt16, hwide, Nat.mod_eq_of_lt (by omega)]
    have hodd : half &&& 1 = 1 ↔ frac.toNat / 2 ^ 13 % 2 = 1 := by
      have hone : half.toNat &&& 1 = half.toNat % 2 := Nat.and_two_pow_sub_one_eq_mod _ 1
      rw [← UInt32.toNat_inj, UInt32.toNat_and, UInt32.toNat_one, hone, hwide]
      omega
    have hup : (frac &&& 0x1fff > 0x1000 ∨ (frac &&& 0x1fff = 0x1000 ∧ half &&& 1 = 1)) ↔
        roundsUp frac.toNat 13 := roundsUp_of_rest hrest (by decide) hodd
    have hle := shiftHalfEven_le (frac.toNat + 2 ^ 23) 13
    rw [apply_ite UInt32.toUInt16, UInt32.toUInt16_add, ← hmantissa]
    refine or_sign_toNat hsign ?_ (by omega)
    exact rounded_toNat _ hhalf (by omega) (hup.trans (roundsUp_leadingBit _))

-- ---------------------------------------------------------------------------
-- The nearest half
-- ---------------------------------------------------------------------------

theorem pow_mul_zpow (k : Nat) (z : Int) : ((2 ^ k : Nat) : ℚ) * 2 ^ z = 2 ^ (k + z) := by
  rw [zpow_add₀ (by norm_num), zpow_natCast]
  push_cast
  rfl

/-- The number a finite single stands for, in units of its last place. -/
theorem single_place {exponent mantissa : Nat} (hexponent : 0 < exponent)
    (hmantissa : mantissa < 2 ^ 23) :
    Format.single.place (exponent * 2 ^ 23 + mantissa) =
      (mantissa + 2 ^ 23 : Nat) * 2 ^ ((exponent : Int) - 150) := by
  have hfields := Format.place_fields Format.single exponent hmantissa
  have hminimum : Format.single.minExponent = -149 := by decide
  rw [if_neg (by omega), hminimum] at hfields
  rw [show (exponent : Int) - 150 = -149 + ((exponent - 1 : Nat) : Int) by omega]
  exact hfields

theorem half_place_subnormal {mantissa : Nat} (h : mantissa < 2 ^ 10) :
    Format.half.place mantissa = mantissa * 2 ^ (-24 : Int) := by
  have hfields := Format.place_fields Format.half 0 h
  have hminimum : Format.half.minExponent = -24 := by decide
  rw [Nat.zero_mul, Nat.zero_add, if_pos rfl, Nat.add_zero, hminimum] at hfields
  exact hfields

theorem half_place_normal {exponent mantissa : Nat} (hexponent : 0 < exponent)
    (hmantissa : mantissa < 2 ^ 10) :
    Format.half.place (exponent * 2 ^ 10 + mantissa) =
      (mantissa + 2 ^ 10 : Nat) * 2 ^ ((exponent : Int) - 25) := by
  have hfields := Format.place_fields Format.half exponent hmantissa
  have hminimum : Format.half.minExponent = -24 := by decide
  rw [if_neg (by omega), hminimum] at hfields
  rw [show (exponent : Int) - 25 = -24 + ((exponent - 1 : Nat) : Int) by omega]
  exact hfields

/-- The step above a half whose fields are these. -/
theorem half_ulp (exponent : Nat) {mantissa : Nat} (hmantissa : mantissa < 2 ^ 10) :
    Format.half.ulp (exponent * 2 ^ 10 + mantissa) = 2 ^ ((-24 : Int) + (exponent - 1 : Nat)) := by
  have hminimum : Format.half.minExponent = -24 := by decide
  have hdiv : (exponent * 2 ^ 10 + mantissa) / 2 ^ 10 = exponent := by omega
  unfold Format.ulp
  rw [hminimum, show Format.half.mantissaBits = 10 from rfl, hdiv]

theorem narrowed_nearest {magnitude : Nat} :
    NearestEven Format.half.place Format.half.infinity (Format.single.place magnitude)
      (narrowed magnitude) := by
  have hgrid := Format.half.place_strictMono
  have hmantissa : magnitude % 2 ^ 23 < 2 ^ 23 := Nat.mod_lt _ (Nat.two_pow_pos _)
  have hsplit := Nat.div_add_mod' magnitude (2 ^ 23)
  unfold narrowed
  dsimp only
  generalize magnitude / 2 ^ 23 = exponent at *
  generalize magnitude % 2 ^ 23 = mantissa at *
  rw [← hsplit]
  split
  · -- from 65536 on
    rename_i hlarge
    refine nearestEven_of_top hgrid ?_
    have htop : Format.half.place Format.half.infinity = 2 ^ (16 : Int) := by
      have hplace := half_place_normal (show 0 < 31 by decide) (show 0 < 2 ^ 10 by decide)
      rw [Nat.zero_add, pow_mul_zpow] at hplace
      exact hplace
    rw [htop, single_place (by omega) hmantissa]
    calc (2 : ℚ) ^ (16 : Int) ≤ 2 ^ ((23 : Nat) + ((exponent : Int) - 150)) :=
        zpow_le_zpow_right₀ (by norm_num) (by omega)
      _ = ((2 ^ 23 : Nat) : ℚ) * 2 ^ ((exponent : Int) - 150) := (pow_mul_zpow _ _).symm
      _ ≤ (mantissa + 2 ^ 23 : Nat) * 2 ^ ((exponent : Int) - 150) := by
        refine mul_le_mul_of_nonneg_right ?_ (zpow_pos (by norm_num) _).le
        exact_mod_cast Nat.le_add_left _ _
  split
  · -- less than half of the smallest one
    rename_i hlarge hsmall
    have hbelow : Format.single.place (exponent * 2 ^ 23 + mantissa) < 2 ^ (-25 : Int) := by
      have hbound := single_place (show 0 < 102 by decide) (show 0 < 2 ^ 23 by decide)
      rw [Nat.zero_add, pow_mul_zpow] at hbound
      have hmono := Format.single.place_strictMono
        (show exponent * 2 ^ 23 + mantissa < 102 * 2 ^ 23 + 0 by omega)
      rw [hbound] at hmono
      exact hmono
    have hzero : Format.half.place 0 = 0 := by rw [half_place_subnormal (by decide)]; simp
    have hone : Format.half.place (0 + 1) = 2 ^ (-25 : Int) + 2 ^ (-25 : Int) := by
      rw [half_place_subnormal (by decide)]
      norm_num
    refine nearestEven_lower hgrid (Nat.zero_le _) ?_ ?_ fun _ => Even.zero
    · rw [hzero]
      exact Format.single.place_nonneg _
    · rw [hzero, hone]
      linarith
  split
  · rename_i hlarge hsmall hsubnormal
    have hlt := significand_shift_lt hmantissa (show 14 ≤ 126 - exponent by omega)
    have hinfinity : Format.half.infinity = 31 * 2 ^ 10 := rfl
    have hunit : ((2 ^ (126 - exponent) : Nat) : ℚ) * 2 ^ ((exponent : Int) - 150) =
        2 ^ (-24 : Int) := by
      rw [pow_mul_zpow]
      congr 1
      omega
    have hlow := half_place_subnormal hlt
    have hstep := half_ulp 0 hlt
    rw [Nat.zero_mul, Nat.zero_add, show (-24 : Int) + (0 - 1 : Nat) = -24 from rfl, ← hunit] at hstep
    rw [← hunit] at hlow
    rw [single_place (by omega) hmantissa]
    unfold shiftHalfEven
    refine nearestEven_shift hgrid (zpow_pos (by norm_num) _) (by omega) (by omega) rfl ?_ ?_
    · rw [hlow]
      push_cast
      ring
    · rw [Format.place_succ, hlow, hstep]
      push_cast
      ring
  · rename_i hlarge hsmall hnormal
    have hbound : (exponent - 112) * 2 ^ 10 + mantissa / 2 ^ 13 + 1 ≤ Format.half.infinity := by
      have hinfinity : Format.half.infinity = 31 * 2 ^ 10 := rfl
      omega
    have hkept : (mantissa + 2 ^ 23) / 2 ^ 13 = mantissa / 2 ^ 13 + 2 ^ 10 := by omega
    have hlt : mantissa / 2 ^ 13 < 2 ^ 10 := by omega
    have hparity : ((exponent - 112) * 2 ^ 10 + mantissa / 2 ^ 13) % 2 =
        (mantissa + 2 ^ 23) / 2 ^ 13 % 2 := by omega
    have hunit : (2 : ℚ) ^ (((exponent - 112 : Nat) : Int) - 25) =
        ((2 ^ 13 : Nat) : ℚ) * 2 ^ ((exponent : Int) - 150) := by
      rw [pow_mul_zpow]
      congr 1
      omega
    have hlow := half_place_normal (show 0 < exponent - 112 by omega) hlt
    have hstep := half_ulp (exponent - 112) hlt
    rw [show (-24 : Int) + ((exponent - 112 - 1 : Nat) : Int) = ((exponent - 112 : Nat) : Int) - 25 by
      omega, hunit] at hstep
    rw [hunit] at hlow
    rw [single_place (by omega) hmantissa]
    unfold shiftHalfEven
    rw [← Nat.add_assoc, normal_index (by omega)]
    refine nearestEven_shift hgrid (zpow_pos (by norm_num) _) (by decide) hbound hparity
      ?_ ?_
    · rw [hlow, hkept]
      push_cast
      ring
    · rw [Format.place_succ, hlow, hstep, hkept]
      push_cast
      ring

-- ---------------------------------------------------------------------------
-- Widening
-- ---------------------------------------------------------------------------

/-- The sign of a half, in the place of a single's. -/
theorem wideSign_toNat (bits : UInt16) :
    ((bits &&& 0x8000).toUInt32 <<< 16).toNat = bits.toNat / 2 ^ 15 * 2 ^ 31 := by
  have hlt := bits.toNat_lt
  have hmask := and_two_pow_eq bits.toNat 15
  have hsixteen : (16 : UInt32).toNat % 32 = 16 := by decide
  have hsign : (bits &&& 0x8000).toNat = bits.toNat / 2 ^ 15 * 2 ^ 15 := by
    rw [UInt16.toNat_and]
    refine hmask.trans ?_
    omega
  rw [UInt32.toNat_shiftLeft, hsixteen, UInt16.toNat_toUInt32, hsign, Nat.shiftLeft_eq]
  omega

theorem halfExponentField_toNat (bits : UInt16) :
    ((bits &&& 0x7c00) >>> 10).toNat = bits.toNat / 2 ^ 10 % 2 ^ 5 := by
  have hten : (10 : UInt16).toNat % 16 = 10 := by decide
  rw [UInt16.toNat_shiftRight, hten, UInt16.toNat_and, Nat.shiftRight_and_distrib,
    Nat.shiftRight_eq_div_pow]
  exact Nat.and_two_pow_sub_one_eq_mod _ 5

theorem halfMantissa_toNat (bits : UInt16) :
    ((bits &&& 0x03ff).toUInt32).toNat = bits.toNat % 2 ^ 10 := by
  rw [UInt16.toNat_toUInt32, UInt16.toNat_and]
  exact Nat.and_two_pow_sub_one_eq_mod _ 10

theorem fields_lt {e m : Nat} (he : e < 2 ^ 8) (hm : m < 2 ^ 10) :
    m * 2 ^ 13 < 2 ^ 23 ∧ e * 2 ^ 23 + m * 2 ^ 13 < 2 ^ 31 ∧ e * 2 ^ 23 < 2 ^ 32 := by
  omega

/-- A single by its fields. -/
theorem or_fields32_toNat {sign exponent mantissa : UInt32} {s e m : Nat}
    (hsign : sign.toNat = s * 2 ^ 31) (hexponent : exponent.toNat = e) (he : e < 2 ^ 8)
    (hmantissa : mantissa.toNat = m) (hm : m < 2 ^ 10) :
    (sign ||| (exponent <<< 23) ||| (mantissa <<< 13)).toNat =
      s * 2 ^ 31 + (e * 2 ^ 23 + m * 2 ^ 13) := by
  obtain ⟨hlow, hhigh, hfits⟩ := fields_lt he hm
  have htwentythree : (23 : UInt32).toNat % 32 = 23 := by decide
  have hthirteen : (13 : UInt32).toNat % 32 = 13 := by decide
  have hshifted : (exponent <<< 23).toNat = e * 2 ^ 23 := by
    rw [UInt32.toNat_shiftLeft, htwentythree, hexponent, Nat.shiftLeft_eq,
      Nat.mod_eq_of_lt hfits]
  have hplaced : (mantissa <<< 13).toNat = m * 2 ^ 13 := by
    rw [UInt32.toNat_shiftLeft, hthirteen, hmantissa, Nat.shiftLeft_eq,
      Nat.mod_eq_of_lt (hlow.trans (by decide))]
  rw [UInt32.toNat_or, UInt32.toNat_or, hsign, hshifted, hplaced, Nat.lor_assoc, or_eq_add e hlow,
    or_eq_add s hhigh]

/-- The loop shifts a subnormal up to its leading bit. -/
theorem normalizeHalf_eq {fuel : Nat} {mant : UInt32} (e : Int) (hpos : 2 ^ 10 ≤ mant.toNat * 2 ^ fuel)
    (hlt : mant.toNat < 2 ^ 11) :
    ∃ places mant', places ≤ fuel ∧ normalizeHalf fuel mant e = (mant', e - places) ∧
      mant'.toNat = mant.toNat * 2 ^ places ∧ 2 ^ 10 ≤ mant'.toNat ∧ mant'.toNat < 2 ^ 11 := by
  induction fuel generalizing mant e with
  | zero =>
    refine ⟨0, mant, le_rfl, ?_, ?_, ?_, hlt⟩
    · simp [normalizeHalf]
    · simp
    · simpa using hpos
  | succ fuel ih =>
    have hbit : mant &&& 0x0400 = 0 ↔ mant.toNat < 2 ^ 10 := by
      have hmask := and_two_pow_eq mant.toNat 10
      rw [← UInt32.toNat_inj, UInt32.toNat_and, UInt32.toNat_zero]
      refine (iff_of_eq (congrArg (· = 0) hmask)).trans ?_
      omega
    unfold normalizeHalf
    by_cases hsmall : mant.toNat < 2 ^ 10
    · have hone : (1 : UInt32).toNat % 32 = 1 := by decide
      have hshifted : (mant <<< 1).toNat = mant.toNat * 2 := by
        rw [UInt32.toNat_shiftLeft, hone, Nat.shiftLeft_eq, Nat.pow_one, Nat.mod_eq_of_lt (by omega)]
      rw [if_pos (hbit.mpr hsmall)]
      obtain ⟨places, mant', hle, hrun, hvalue, hlow, hhigh⟩ := ih (e - 1)
        (by rw [hshifted, Nat.mul_assoc, ← Nat.pow_succ']; exact hpos) (by rw [hshifted]; omega)
      refine ⟨places + 1, mant', by omega, ?_, ?_, hlow, hhigh⟩
      · rw [hrun, show e - 1 - (places : Int) = e - ((places + 1 : Nat) : Int) by omega]
      · rw [hvalue, hshifted, Nat.pow_succ', Nat.mul_assoc]
    · rw [if_neg (mt hbit.mp hsmall)]
      exact ⟨0, mant, Nat.zero_le _, by simp, by simp, by omega, hlt⟩

theorem shift_leadingBit {m : Nat} (h : 2 ^ 10 ≤ m) : (m - 2 ^ 10) * 2 ^ 13 + 2 ^ 23 = m * 2 ^ 13 := by
  omega

theorem fields_lt_infinity {e m : Nat} (he : e < 255) (hm : m < 2 ^ 10) :
    e * 2 ^ 23 + m * 2 ^ 13 < Format.single.infinity := by
  have hinfinity : Format.single.infinity = 255 * 2 ^ 23 := rfl
  omega

/-- A half that is not a NaN is widened to the same number. -/
theorem f16ToF32Kv_exact {bits : UInt16} (h : bits.toNat % 2 ^ 15 ≤ Format.half.infinity) :
    ∃ magnitude, (f16ToF32Kv bits).bits.toNat = bits.toNat / 2 ^ 15 * 2 ^ 31 + magnitude ∧
      Format.Exact .half .single (bits.toNat % 2 ^ 15) magnitude := by
  have hinfinity : Format.half.infinity = 31 * 2 ^ 10 := rfl
  have hsign := wideSign_toNat bits
  have hexponent : ((bits &&& 0x7c00) >>> 10).toNat = bits.toNat % 2 ^ 15 / 2 ^ 10 := by
    rw [halfExponentField_toNat]
    omega
  have hmantissa : ((bits &&& 0x03ff).toUInt32).toNat = bits.toNat % 2 ^ 15 % 2 ^ 10 := by
    rw [halfMantissa_toNat]
    omega
  have hsplit := Nat.div_add_mod' (bits.toNat % 2 ^ 15) (2 ^ 10)
  have hlt : bits.toNat % 2 ^ 15 % 2 ^ 10 < 2 ^ 10 := Nat.mod_lt _ (Nat.two_pow_pos _)
  unfold f16ToF32Kv
  dsimp only
  generalize bits.toNat % 2 ^ 15 = half at *
  generalize bits.toNat / 2 ^ 15 = s at *
  generalize (bits &&& 0x8000).toUInt32 <<< 16 = sign at *
  generalize (bits &&& 0x7c00) >>> 10 = exp at *
  generalize (bits &&& 0x03ff).toUInt32 = frac at *
  generalize half / 2 ^ 10 = exponent at *
  generalize half % 2 ^ 10 = mantissa at *
  have hexpZero : exp = 0 ↔ exponent = 0 := by
    rw [← UInt16.toNat_inj, UInt16.toNat_zero, hexponent]
  have hexpLast : exp = 0x1f ↔ exponent = 31 := by
    rw [← UInt16.toNat_inj, show (0x1f : UInt16).toNat = 31 from rfl, hexponent]
  have hfrac : frac = 0 ↔ mantissa = 0 := by
    rw [← UInt32.toNat_inj, UInt32.toNat_zero, hmantissa]
  by_cases hzero : exponent = 0
  · rw [if_pos (hexpZero.mpr hzero)]
    have hhalf : half = mantissa := by omega
    by_cases hnone : mantissa = 0
    · -- the zeros
      rw [if_pos (hfrac.mpr hnone), hsign]
      refine ⟨0, (Nat.add_zero _).symm, fun _ => ⟨by decide, ?_⟩, fun h => by omega⟩
      rw [hhalf, hnone, half_place_subnormal (by decide)]
      decide +kernel
    · -- a subnormal: the exponent goes down by as many places as the mantissa goes up
      rw [if_neg (mt hfrac.mp hnone)]
      obtain ⟨places, mant, hplaces, hrun, hvalue, hlow, hhigh⟩ :=
        normalizeHalf_eq (-14) (show 2 ^ 10 ≤ frac.toNat * 2 ^ 10 by omega) (by omega)
      have hbelow : half < Format.half.infinity := by omega
      have hfits : 113 - places < 2 ^ 8 := by omega
      have hrest : mant.toNat - 2 ^ 10 < 2 ^ 10 := by omega
      have hshifted : (mant.toNat - 2 ^ 10) * 2 ^ 13 < 2 ^ 23 := by omega
      have hwide : (UInt32.ofNat (-14 - (places : Int) + 127).toNat).toNat = 113 - places := by
        rw [UInt32.toNat_ofNat', show (-14 - (places : Int) + 127).toNat = 113 - places by omega]
        exact Nat.mod_eq_of_lt (hfits.trans (by decide))
      have hmant : (mant &&& 0x03ff).toNat = mant.toNat - 2 ^ 10 := by
        rw [UInt32.toNat_and]
        refine (Nat.and_two_pow_sub_one_eq_mod _ 10).trans ?_
        omega
      rw [hrun]
      refine ⟨_, or_fields32_toNat hsign hwide hfits hmant hrest, fun _ => ⟨?_, ?_⟩,
        fun h => absurd h hbelow.ne⟩
      · exact fields_lt_infinity (by omega) hrest
      · rw [hhalf, half_place_subnormal hlt, single_place (by omega) hshifted,
          shift_leadingBit hlow, hvalue, hmantissa]
        have hscale : (2 : ℚ) ^ (-24 : Int) = ((2 ^ places : Nat) : ℚ) *
            (((2 ^ 13 : Nat) : ℚ) * 2 ^ (((113 - places : Nat) : Int) - 150)) := by
          rw [pow_mul_zpow, pow_mul_zpow]
          congr 1
          omega
        rw [hscale]
        generalize (2 : ℚ) ^ (((113 - places : Nat) : Int) - 150) = unit
        push_cast
        ring
  rw [if_neg (mt hexpZero.mp hzero)]
  by_cases hlast : exponent = 31
  · have hnone : mantissa = 0 := by omega
    have hend : half = Format.half.infinity := by omega
    rw [if_pos (hexpLast.mpr hlast), if_pos (hfrac.mpr hnone), UInt32.toNat_or, hsign]
    exact ⟨Format.single.infinity, or_eq_add s (by decide), fun h => absurd hend h.ne, fun _ => rfl⟩
  · rw [if_neg (mt hexpLast.mp hlast)]
    have hbelow : half < Format.half.infinity := by omega
    have hfits : exponent + 112 < 2 ^ 8 := by omega
    have hshifted : mantissa * 2 ^ 13 < 2 ^ 23 := by omega
    have hwide : (exp.toUInt32 + 112).toNat = exponent + 112 := by
      rw [UInt32.toNat_add, UInt16.toNat_toUInt32, hexponent, show (112 : UInt32).toNat = 112 from rfl]
      exact Nat.mod_eq_of_lt (hfits.trans (by decide))
    have hplace := half_place_normal (Nat.pos_of_ne_zero hzero) hlt
    rw [hsplit] at hplace
    refine ⟨_, or_fields32_toNat hsign hwide hfits hmantissa hlt, fun _ => ⟨?_, ?_⟩,
      fun h => absurd h hbelow.ne⟩
    · exact fields_lt_infinity (by omega) hlt
    · rw [hplace, single_place (Nat.succ_pos _) hshifted]
      have hscale : (2 : ℚ) ^ ((exponent : Int) - 25) =
          ((2 ^ 13 : Nat) : ℚ) * 2 ^ (((exponent + 112 : Nat) : Int) - 150) := by
        rw [pow_mul_zpow]
        congr 1
        omega
      rw [hscale]
      generalize (2 : ℚ) ^ (((exponent + 112 : Nat) : Int) - 150) = unit
      push_cast
      ring

-- ---------------------------------------------------------------------------
-- NaNs
-- ---------------------------------------------------------------------------

/-- A NaN becomes the quiet one of its sign. -/
theorem f32ToF16Kv_nan {value : F32} (h : Format.single.infinity < value.bits.toNat % 2 ^ 31) :
    (f32ToF16Kv value).toNat = value.bits.toNat / 2 ^ 31 * 2 ^ 15 + 0x7e00 := by
  have hinfinity : Format.single.infinity = 255 * 2 ^ 23 := rfl
  have hexponent : value.bits.toNat / 2 ^ 23 % 2 ^ 8 = 255 := by omega
  have hmantissa : value.bits &&& 0x007fffff ≠ 0 := by
    rw [ne_eq, ← UInt32.toNat_inj, mantissa_toNat, UInt32.toNat_zero]
    omega
  unfold f32ToF16Kv
  dsimp only
  rw [exponent_toNat, hexponent, if_pos (show ((255 : Nat) : Int) = 255 from rfl), if_neg hmantissa]
  exact or_sign_toNat (sign_toNat _) rfl (by decide)

/-- Going back it stays quiet, with its payload. -/
theorem f16ToF32Kv_nan {bits : UInt16} (h : Format.half.infinity < bits.toNat % 2 ^ 15) :
    (f16ToF32Kv bits).bits.toNat = bits.toNat / 2 ^ 15 * 2 ^ 31 +
      (Format.single.infinity + (2 ^ 22 ||| bits.toNat % 2 ^ 10 * 2 ^ 13)) := by
  have hinfinity : Format.half.infinity = 31 * 2 ^ 10 := rfl
  have hfield : bits.toNat / 2 ^ 10 % 2 ^ 5 = 31 := by omega
  have hexp : (bits &&& 0x7c00) >>> 10 = 0x1f := by
    rw [← UInt16.toNat_inj, halfExponentField_toNat, hfield]
    rfl
  have hfrac : (bits &&& 0x03ff).toUInt32 ≠ 0 := by
    rw [ne_eq, ← UInt32.toNat_inj, halfMantissa_toNat, UInt32.toNat_zero]
    omega
  have hthirteen : (13 : UInt32).toNat % 32 = 13 := by decide
  have hplaced : ((bits &&& 0x03ff).toUInt32 <<< 13).toNat = bits.toNat % 2 ^ 10 * 2 ^ 13 := by
    rw [UInt32.toNat_shiftLeft, hthirteen, halfMantissa_toNat, Nat.shiftLeft_eq]
    exact Nat.mod_eq_of_lt (by omega)
  have hlow : 2 ^ 22 ||| bits.toNat % 2 ^ 10 * 2 ^ 13 < 2 ^ 23 :=
    Nat.or_lt_two_pow (by decide) (by omega)
  have hhigh : 255 * 2 ^ 23 + (2 ^ 22 ||| bits.toNat % 2 ^ 10 * 2 ^ 13) < 2 ^ 31 := by omega
  unfold f16ToF32Kv
  dsimp only
  rw [hexp, if_neg (by decide), if_pos rfl, if_neg hfrac, UInt32.toNat_or, UInt32.toNat_or,
    UInt32.toNat_or, hplaced, wideSign_toNat, Nat.lor_assoc, Nat.lor_assoc,
    show (0x7f800000 : UInt32).toNat = 255 * 2 ^ 23 from rfl,
    show (0x00400000 : UInt32).toNat = 2 ^ 22 from rfl, or_eq_add 255 hlow, or_eq_add _ hhigh]
  rfl

-- ---------------------------------------------------------------------------
-- The round trip
-- ---------------------------------------------------------------------------

theorem narrowed_mono {a b : Nat} (h : a ≤ b) : narrowed a ≤ narrowed b :=
  narrowed_nearest.mono Format.half.place_strictMono narrowed_nearest
    (Format.single.place_strictMono.monotone h)

/-- What is exact in single precision narrows to itself. -/
theorem narrowed_of_exact {half magnitude : Nat} (h : Format.Exact .half .single half magnitude)
    (hle : half ≤ Format.half.infinity) : narrowed magnitude = half := by
  have hends : Format.half.place Format.half.infinity ≤
      Format.single.place Format.single.infinity := by decide +kernel
  exact narrowed_nearest.unique Format.half.place_strictMono (h.nearest hle hends)

theorem f32IsNan_iff (word : UInt32) :
    Word.f32IsNan word = true ↔ Format.single.infinity < word.toNat % 2 ^ 31 := by
  unfold Word.f32IsNan
  exact decide_eq_true_iff

/-- The rounding of a number has the sign of the number, and the magnitude of the nearest
half. -/
theorem kvRound_exact {value : F32} (h : value.bits.toNat % 2 ^ 31 ≤ Format.single.infinity) :
    ∃ magnitude, (kvRound value).bits.toNat = value.bits.toNat / 2 ^ 31 * 2 ^ 31 + magnitude ∧
      Format.Exact .half .single (narrowed (value.bits.toNat % 2 ^ 31)) magnitude := by
  have hnarrow := f32ToF16Kv_toNat h
  have hle := narrowed_le (value.bits.toNat % 2 ^ 31)
  have hinfinity : Format.half.infinity = 31 * 2 ^ 10 := rfl
  have hmod : (f32ToF16Kv value).toNat % 2 ^ 15 = narrowed (value.bits.toNat % 2 ^ 31) := by omega
  have hdiv : (f32ToF16Kv value).toNat / 2 ^ 15 = value.bits.toNat / 2 ^ 31 := by omega
  have hwide := f16ToF32Kv_exact (hmod ▸ hle)
  rwa [hmod, hdiv] at hwide

theorem kvRound_nan {value : F32} (h : Format.single.infinity < value.bits.toNat % 2 ^ 31) :
    (kvRound value).bits.toNat =
      value.bits.toNat / 2 ^ 31 * 2 ^ 31 + (Format.single.infinity + 2 ^ 22) := by
  have hnarrow := f32ToF16Kv_nan h
  have hinfinity : Format.half.infinity = 31 * 2 ^ 10 := rfl
  have hmod : (f32ToF16Kv value).toNat % 2 ^ 10 = 2 ^ 9 := by omega
  have hdiv : (f32ToF16Kv value).toNat / 2 ^ 15 = value.bits.toNat / 2 ^ 31 := by omega
  have hwide := @f16ToF32Kv_nan (f32ToF16Kv value) (by omega)
  rw [hmod, hdiv] at hwide
  exact hwide

/-- A rounded number is one that half precision has. -/
theorem f32ToF16Kv_kvRound (value : F32) : f32ToF16Kv (kvRound value) = f32ToF16Kv value := by
  have hinfinity : Format.single.infinity = 255 * 2 ^ 23 := rfl
  rw [← UInt16.toNat_inj]
  by_cases hnan : Format.single.infinity < value.bits.toNat % 2 ^ 31
  · have hround := kvRound_nan hnan
    have hsign : (kvRound value).bits.toNat / 2 ^ 31 = value.bits.toNat / 2 ^ 31 := by omega
    rw [f32ToF16Kv_nan hnan, f32ToF16Kv_nan (by omega), hsign]
  · have hnumber := not_lt.mp hnan
    obtain ⟨magnitude, hround, hexact⟩ := kvRound_exact hnumber
    have hbound := hexact.le_infinity (narrowed_le _)
    have hsign : (kvRound value).bits.toNat / 2 ^ 31 = value.bits.toNat / 2 ^ 31 := by omega
    have hmagnitude : (kvRound value).bits.toNat % 2 ^ 31 = magnitude := by omega
    rw [f32ToF16Kv_toNat hnumber, f32ToF16Kv_toNat (hmagnitude ▸ hbound), hsign, hmagnitude,
      narrowed_of_exact hexact (narrowed_le _)]

/-- The place of a word in the order of floats, by its fields. -/
theorem f32Order_fields {word : UInt32} {s m : Nat} (hword : word.toNat = s * 2 ^ 31 + m)
    (hm : m < 2 ^ 31) : Word.f32Order word = if s = 0 then (m : Int) else -m := by
  have hmod : word.toNat % 2 ^ 31 = m := by omega
  unfold Word.f32Order
  rw [hmod]
  by_cases hs : s = 0
  · rw [if_pos (by omega), if_pos hs]
    omega
  · rw [if_neg (by omega), if_neg hs]

theorem le_iff {x y : F32} : x.le y = true ↔
    x.bits.toNat % 2 ^ 31 ≤ Format.single.infinity ∧
      y.bits.toNat % 2 ^ 31 ≤ Format.single.infinity ∧
      Word.f32Order x.bits ≤ Word.f32Order y.bits := by
  have hnan : ∀ word : UInt32, Word.f32IsNan word = false ↔
      word.toNat % 2 ^ 31 ≤ Format.single.infinity := by
    intro word
    rw [← not_lt, ← f32IsNan_iff, Bool.not_eq_true]
  unfold F32.le F32.lt F32.eq Word.f32Lt Word.f32Eq
  simp only [Bool.or_eq_true, Bool.and_eq_true, Bool.not_eq_true', hnan, decide_eq_true_iff,
    beq_iff_eq]
  rw [← and_or_left, and_assoc, le_iff_lt_or_eq (a := Word.f32Order x.bits)]

theorem kvRound_mono {x y : F32} (h : x.le y = true) : (kvRound x).le (kvRound y) = true := by
  obtain ⟨hx, hy, hle⟩ := le_iff.mp h
  obtain ⟨a, ha, hexact⟩ := kvRound_exact hx
  obtain ⟨b, hb, hexact'⟩ := kvRound_exact hy
  have hinfinity : Format.single.infinity = 255 * 2 ^ 23 := rfl
  have habound := hexact.le_infinity (narrowed_le _)
  have hbbound := hexact'.le_infinity (narrowed_le _)
  rw [f32Order_fields (Nat.div_add_mod' x.bits.toNat (2 ^ 31)).symm (Nat.mod_lt _ (by decide)),
    f32Order_fields (Nat.div_add_mod' y.bits.toNat (2 ^ 31)).symm (Nat.mod_lt _ (by decide))] at hle
  refine le_iff.mpr ⟨by omega, by omega, ?_⟩
  rw [f32Order_fields ha (by omega), f32Order_fields hb (by omega)]
  by_cases hxs : x.bits.toNat / 2 ^ 31 = 0
  · rw [if_pos hxs] at hle ⊢
    by_cases hys : y.bits.toNat / 2 ^ 31 = 0
    · rw [if_pos hys] at hle ⊢
      have := hexact.mono hexact' (narrowed_mono (by omega)) (narrowed_le _)
      omega
    · -- only the zeros
      rw [if_neg hys] at hle ⊢
      have hzero : narrowed 0 = 0 := by decide
      have hnone : Format.Exact .half .single 0 0 := by
        refine ⟨fun _ => ⟨by decide, by decide +kernel⟩, fun h => ?_⟩
        exact absurd h (by decide)
      have hxzero : x.bits.toNat % 2 ^ 31 = 0 := by omega
      have hyzero : y.bits.toNat % 2 ^ 31 = 0 := by omega
      rw [hxzero, hzero] at hexact
      rw [hyzero, hzero] at hexact'
      have := hexact.mono hnone le_rfl (Nat.zero_le _)
      have := hexact'.mono hnone le_rfl (Nat.zero_le _)
      omega
  · rw [if_neg hxs] at hle ⊢
    by_cases hys : y.bits.toNat / 2 ^ 31 = 0
    · rw [if_pos hys]
      omega
    · rw [if_neg hys] at hle ⊢
      have := hexact'.mono hexact (narrowed_mono (by omega)) (narrowed_le _)
      omega

-- ---------------------------------------------------------------------------
-- The conversions
-- ---------------------------------------------------------------------------

/-- Infinity from half way between the greatest half and the next number on. -/
theorem narrowed_eq_infinity_iff (magnitude : Nat) :
    narrowed magnitude = Format.half.infinity ↔ 65520 ≤ Format.single.place magnitude := by
  have hgrid := Format.half.place_strictMono
  have hnearest := @narrowed_nearest magnitude
  have hlast : Format.half.place 31743 = 65504 := by decide +kernel
  have hend : Format.half.place (31743 + 1) = 65536 := by decide +kernel
  have hinfinity : Format.half.infinity = 31743 + 1 := rfl
  constructor
  · intro h
    rw [h, hinfinity] at hnearest
    have hnear := (abs_sub_le_abs_sub_iff (hgrid (Nat.lt_succ_self 31743))).mp
      (hnearest.nearest 31743 (by decide))
    rw [Nat.succ_eq_add_one, hlast, hend] at hnear
    linarith
  · intro h
    rcases le_total (65536 : ℚ) (Format.single.place magnitude) with hfar | hnear
    · exact hnearest.unique hgrid (nearestEven_of_top hgrid (by rw [hinfinity, hend]; exact hfar))
    · have hupper : NearestEven Format.half.place (31743 + 1) (Format.single.place magnitude)
          (31743 + 1) := by
        refine nearestEven_upper hgrid le_rfl ?_ ?_ fun _ => by decide
        · rw [hend]
          exact hnear
        · rw [hlast, hend]
          linarith
      exact hnearest.unique hgrid hupper

theorem half_magnitude_f32ToF16Kv {value : F32}
    (h : value.bits.toNat % 2 ^ 31 ≤ Format.single.infinity) :
    Format.half.magnitude (f32ToF16Kv value).toNat = narrowed (value.bits.toNat % 2 ^ 31) := by
  rw [f32ToF16Kv_toNat h]
  exact Format.magnitude_fields .half _ ((narrowed_le _).trans_lt (Format.infinity_lt_signBit .half))

theorem f32ToF16Kv_rounds (value : F32) :
    Format.Rounds .single .half value.bits.toNat (f32ToF16Kv value).toNat := by
  have hbound := Format.infinity_lt_signBit .half
  by_cases hnan : Format.single.infinity < value.bits.toNat % 2 ^ 31
  · have hfields := f32ToF16Kv_nan hnan
    have hquiet : 0x7e00 < Format.half.signBit := by decide
    have hmagnitude : Format.half.magnitude (f32ToF16Kv value).toNat = 0x7e00 := by
      rw [hfields]
      exact Format.magnitude_fields .half _ hquiet
    refine ⟨?_, fun h => absurd h (not_le.mpr hnan), fun _ => ?_⟩
    · rw [hfields]
      exact Format.isNegative_fields .single .half _ hquiet
    · rw [hmagnitude]
      decide
  · have hfields := f32ToF16Kv_toNat (not_lt.mp hnan)
    have hlt := (narrowed_le (value.bits.toNat % 2 ^ 31)).trans_lt hbound
    refine ⟨?_, fun _ => ?_, fun h => absurd h hnan⟩
    · rw [hfields]
      exact Format.isNegative_fields .single .half _ hlt
    · rw [half_magnitude_f32ToF16Kv (not_lt.mp hnan)]
      exact narrowed_nearest

theorem f16ToF32Kv_widens (bits : UInt16) :
    Format.Widens .half .single bits.toNat (f16ToF32Kv bits).bits.toNat := by
  have hbound := Format.infinity_lt_signBit .single
  by_cases hnan : Format.half.infinity < bits.toNat % 2 ^ 15
  · have hfields := f16ToF32Kv_nan hnan
    have hpayload : bits.toNat % 2 ^ 15 % 2 ^ 10 = bits.toNat % 2 ^ 10 := by omega
    have hlow : 2 ^ 22 ||| bits.toNat % 2 ^ 10 * 2 ^ 13 < 2 ^ 23 :=
      Nat.or_lt_two_pow (by decide) (by omega)
    have hlt : Format.single.infinity + (2 ^ 22 ||| bits.toNat % 2 ^ 10 * 2 ^ 13) <
        Format.single.signBit := by
      have hinfinity : Format.single.infinity = 255 * 2 ^ 23 := rfl
      have hsign : Format.single.signBit = 2 ^ 31 := rfl
      omega
    refine ⟨?_, fun h => absurd h (not_le.mpr hnan), fun _ => ?_⟩
    · rw [hfields]
      exact Format.isNegative_fields .half .single _ hlt
    · have hmagnitude := Format.magnitude_fields .single (bits.toNat / 2 ^ 15) hlt
      rw [hfields]
      refine hmagnitude.trans ?_
      rw [← hpayload]
      rfl
  · obtain ⟨magnitude, hfields, hexact⟩ := f16ToF32Kv_exact (not_lt.mp hnan)
    have hlt := (hexact.le_infinity (not_lt.mp hnan)).trans_lt hbound
    refine ⟨?_, fun _ => ?_, fun h => absurd h hnan⟩
    · rw [hfields]
      exact Format.isNegative_fields .half .single _ hlt
    · have hmagnitude : Format.single.magnitude (f16ToF32Kv bits).bits.toNat = magnitude := by
        rw [hfields]
        exact Format.magnitude_fields .single _ hlt
      rw [hmagnitude]
      exact hexact

/-- Storing a key or a value takes the nearest half, which is what the general conversion
takes too, and reading it back adds nothing; so the round trip is the rounding of the
numbers to halves. -/
theorem half_precision_ieee (value : F32) :
    Format.Rounds .single .half value.bits.toNat (f32ToF16Kv value).toNat ∧
    (Word.f32IsNan value.bits = false →
      (Format.half.magnitude (f32ToF16Kv value).toNat = Format.half.infinity ↔
        65520 ≤ Format.single.place (Format.single.magnitude value.bits.toNat)) ∧
      f32ToF16Kv value = f32ToF16Bits value) ∧
    kvRound (kvRound value) = kvRound value ∧
    (∀ other : F32, value.le other = true → (kvRound value).le (kvRound other) = true) ∧
    ∀ bits : UInt16, Format.Widens .half .single bits.toNat (f16ToF32Kv bits).bits.toNat := by
  refine ⟨f32ToF16Kv_rounds value, ?_, ?_, fun other h => kvRound_mono h, f16ToF32Kv_widens⟩
  · intro hnan
    rw [← Bool.not_eq_true, f32IsNan_iff, not_lt] at hnan
    constructor
    · rw [half_magnitude_f32ToF16Kv hnan]
      exact narrowed_eq_infinity_iff _
    · rw [← UInt16.toNat_inj, f32ToF16Kv_toNat hnan, f32ToF16Bits_toNat hnan]
  · exact congrArg f16ToF32Kv (f32ToF16Kv_kvRound value)

end CamelidEnterprise

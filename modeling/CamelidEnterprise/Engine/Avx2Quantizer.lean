import CamelidEnterprise.Engine.Quantizer

/-!
# Camelid Enterprise — the AVX2 quantizer

`quantize_q8_0_block` of `crates/engine-windows/src/q8_dot.rs` over extended numbers: its AVX2
kernel, instruction by instruction. NaNs are taken for zero before the maximum and before the
rounding, ties to even are corrected to ties away from zero, and the packs interleave the two
halves of their operands, which a permutation undoes.

* `quantizeQ8_0BlockAvx2_eq` — the kernel returns what the portable quantizer does, and no
  pack saturates.
-/

namespace CamelidEnterprise

open Foundation Foundation.Buffer Foundation.Lanes

namespace Avx2Quantizer

open Quantizer

-- ---------------------------------------------------------------------------
-- Instructions
-- ---------------------------------------------------------------------------

/-- `_mm256_loadu_ps` -/
def mm256LoaduPs (block : Vector Extended 32) (start : Nat) : Vector Extended 8 :=
  reg 8 fun i => peek block (start + i)

/-- `_mm256_max_ps` and `_mm_max_ps` -/
def mmMaxPs {n : Nat} (a b : Vector Extended n) : Vector Extended n :=
  reg n fun i => Extended.maxps (peek a i) (peek b i)

/-- `_mm_shuffle_ps::<IMM>(m, m)`: lane `i` is the one that bits `2 * i` and up of `IMM`
name. -/
def mmShufflePs (imm : Nat) (a : Vector Extended 4) : Vector Extended 4 :=
  reg 4 fun i => peek a (imm / 4 ^ i % 4)

/-- `_mm256_mul_ps` by one value in every lane. -/
def mm256MulPs (ops : Arithmetic) (a : Vector Extended 8) (x : Extended) : Vector Extended 8 :=
  reg 8 fun i => ops.mul (peek a i) x

/-- `_mm256_packs_epi32`: four lanes of each operand, and then the other four. -/
def mm256PacksEpi32 (a b : Vector Int 8) : Laned (Vector Int 16) :=
  lanesSaturating 16 16 fun i =>
    if i % 8 < 4 then peek a (i / 8 * 4 + i % 4) else peek b (i / 8 * 4 + i % 4)

/-- `_mm256_packs_epi16`: eight lanes of each operand, and then the other eight. -/
def mm256PacksEpi16 (a b : Vector Int 16) : Laned (Vector Int 32) :=
  lanesSaturating 8 32 fun i =>
    if i % 16 < 8 then peek a (i / 16 * 8 + i % 8) else peek b (i / 16 * 8 + i % 8)

/-- `_mm256_permutevar8x32_epi32`, of bytes in fours. -/
def mm256Permutevar8x32Epi32 (a : Vector Int 32) (idx : Vector Nat 8) : Vector Int 32 :=
  reg 32 fun i => peek a (4 * peek idx (i / 4) + i % 4)

-- ---------------------------------------------------------------------------
-- The kernel
-- ---------------------------------------------------------------------------

/-- `abs_with_nan_as_zero`, of one lane. -/
def absWithNanAsZero (x : Extended) : Extended :=
  let ordered := x.eq x
  if ordered then x.abs else 0

/-- `round_half_away_clamped_to_i32`, of one lane. -/
def roundHalfAwayClampedToI32 (x : Extended) : Int :=
  let ordered := x.eq x
  let x := if ordered then x else 0
  let x := Extended.minps (Extended.maxps x (Extended.rat (-128 : Int))) (Extended.rat (127 : Int))
  let nearest := Extended.roundTo Rounding.roundHalfEven x
  let delta := Extended.sub x nearest
  let signedHalf := Extended.copySign (1 / 2) x
  let isTie := delta.eq signedHalf
  let signedOne := Extended.copySign 1 x
  let rounded := Extended.add nearest (if isTie then signedOne else 0)
  Extended.toIntIndefinite 32 rounded

/-- `horizontal_max_f32x8` -/
def horizontalMaxF32x8 (v : Vector Extended 8) : Extended :=
  let hi := reg 4 fun i => peek v (4 + i)
  let lo := reg 4 fun i => peek v i
  let m := mmMaxPs lo hi
  let m := mmMaxPs m (mmShufflePs 0x4e m)
  let m := mmMaxPs m (mmShufflePs 0xb1 m)
  peek m 0

/-- `max_abs` -/
def maxAbs (block : Vector Extended 32) : Extended :=
  let maxVec := (List.range 4).foldl
    (fun maxVec k =>
      mmMaxPs maxVec (reg 8 fun i => absWithNanAsZero (peek (mm256LoaduPs block (8 * k)) i)))
    (reg 8 fun _ => 0)
  horizontalMaxF32x8 maxVec

/-- Eight values scaled, clamped and rounded: `i0` to `i3`. -/
def convert (ops : Arithmetic) (inv : Extended) (v : Vector Extended 8) : Vector Int 8 :=
  reg 8 fun i => roundHalfAwayClampedToI32 (peek (mm256MulPs ops v inv) i)

/-- `quantize_q8_0_block_avx2` -/
def quantizeQ8_0BlockAvx2 (ops : Arithmetic) (block : Vector Extended 32) :
    Laned (Quantized Extended) := do
  let (scale, invScale) := (extended ops).scales (maxAbs block)
  let v (k : Nat) := mm256LoaduPs block (8 * k)
  let i0 := convert ops invScale (v 0)
  let i1 := convert ops invScale (v 1)
  let i2 := convert ops invScale (v 2)
  let i3 := convert ops invScale (v 3)
  let low ← mm256PacksEpi32 i0 i1
  let high ← mm256PacksEpi32 i2 i3
  let packed ← mm256PacksEpi16 low high
  let ordered := mm256Permutevar8x32Epi32 packed #v[0, 4, 1, 5, 2, 6, 3, 7]
  pure ⟨scale, ordered⟩

-- ---------------------------------------------------------------------------
-- The greatest magnitude
-- ---------------------------------------------------------------------------

section Tree

variable (f : Nat → Extended)

/-- A register whose lanes hold the greatest of zero and the numbers at some places. -/
def greatests (n : Nat) (s : Nat → Finset Nat) : Vector Extended n :=
  reg n fun i => .number (Extended.greatest f (s i))

theorem mmMaxPs_greatests {n : Nat} (s t : Nat → Finset Nat) :
    mmMaxPs (greatests f n s) (greatests f n t) = greatests f n fun i => s i ∪ t i := by
  refine reg_congr fun i hi => ?_
  unfold greatests
  rw [peek_reg _ hi, peek_reg _ hi, Extended.maxps_number, Extended.max_greatest]

theorem mmShufflePs_greatests (imm : Nat) (s : Nat → Finset Nat) :
    mmShufflePs imm (greatests f 4 s) = greatests f 4 fun i => s (imm / 4 ^ i % 4) :=
  reg_congr fun i _ => peek_reg _ (Nat.mod_lt _ (by decide))

/-- The lanes of a register end up in one. -/
theorem horizontalMaxF32x8_greatests (s : Nat → Finset Nat) :
    horizontalMaxF32x8 (greatests f 8 s) = .number (Extended.greatest f
      (((s 0 ∪ s 4) ∪ (s 2 ∪ s 6)) ∪ ((s 1 ∪ s 5) ∪ (s 3 ∪ s 7)))) := by
  have hhi : (reg 4 fun i => peek (greatests f 8 s) (4 + i)) = greatests f 4 fun i => s (4 + i) :=
    reg_congr fun i hi => peek_reg _ (show 4 + i < 8 by omega)
  have hlo : (reg 4 fun i => peek (greatests f 8 s) i) = greatests f 4 s :=
    reg_congr fun i hi => peek_reg _ (show i < 8 by omega)
  unfold horizontalMaxF32x8
  simp only [hhi, hlo, mmMaxPs_greatests, mmShufflePs_greatests]
  exact peek_reg _ (by decide)

end Tree

theorem absWithNanAsZero_eq (block : Vector Extended 32) (i : Nat) :
    absWithNanAsZero (peek block i) = .number (Extended.greatest (magnitudes block) {i}) := by
  rw [Extended.greatest_singleton]
  unfold magnitudes absWithNanAsZero
  rcases peek block i with _ | x
  · rfl
  · dsimp only
    rw [Extended.eq_self, if_pos rfl]
    exact congrArg _ (max_eq_right (Extended.magnitude_nonneg x)).symm

/-- The kernel's greatest magnitude is that of every number of the block. -/
theorem maxAbs_eq (block : Vector Extended 32) :
    maxAbs block = .number (Extended.greatest (magnitudes block) (Finset.range 32)) := by
  have hload (k : Nat) :
      (reg 8 fun i => absWithNanAsZero (peek (mm256LoaduPs block (8 * k)) i)) =
        greatests (magnitudes block) 8 fun i => {8 * k + i} := by
    refine reg_congr fun i hi => ?_
    unfold mm256LoaduPs
    rw [peek_reg _ hi, absWithNanAsZero_eq]
  have hzero : (reg 8 fun _ => (0 : Extended)) = greatests (magnitudes block) 8 fun _ => ∅ :=
    reg_congr fun _ _ => rfl
  unfold maxAbs
  rw [hzero, show List.range 4 = [0, 1, 2, 3] from rfl]
  simp only [List.foldl_cons, List.foldl_nil, hload, mmMaxPs_greatests,
    horizontalMaxF32x8_greatests]
  congr 2
  decide

-- ---------------------------------------------------------------------------
-- Rounding
-- ---------------------------------------------------------------------------

/-- Every number that reaches the conversion is an integer of a byte. -/
theorem round_of_clamped {q : ℚ} (hrange : -128 ≤ Extended.roundHalfAway q ∧
    Extended.roundHalfAway q ≤ 127) :
    (let nearest := Extended.roundTo Rounding.roundHalfEven (Extended.rat q)
    let delta := Extended.sub (Extended.rat q) nearest
    let isTie := delta.eq (Extended.copySign (1 / 2) (Extended.rat q))
    Extended.toIntIndefinite 32 (Extended.add nearest
      (if isTie then Extended.copySign 1 (Extended.rat q) else 0))) =
      Extended.roundHalfAway q := by
  have hnearest : Extended.roundTo Rounding.roundHalfEven (Extended.rat q) =
      Extended.rat (Rounding.roundHalfEven q) := rfl
  dsimp only
  rw [hnearest, Extended.sub_rat, Extended.copySign_rat, Extended.copySign_rat, Extended.eq_rat,
    show (0 : Extended) = Extended.rat 0 from rfl, ← apply_ite Extended.rat, Extended.add_rat]
  simp only [decide_eq_true_eq]
  rw [Extended.tie_correction]
  exact Extended.toIntIndefinite_intCast ⟨by omega, by omega⟩

/-- A lane is rounded to the nearest byte. -/
theorem roundHalfAwayClampedToI32_eq (x : Extended) :
    roundHalfAwayClampedToI32 x = nearestByte x := by
  unfold roundHalfAwayClampedToI32
  dsimp only
  rcases x with _ | x
  · -- a NaN is taken for zero
    have hzero : Extended.roundHalfAway 0 = 0 := Extended.roundHalfAway_intCast 0
    have hclamped : Extended.minps (Extended.maxps (0 : Extended) (Extended.rat (-128 : Int)))
        (Extended.rat (127 : Int)) = Extended.rat 0 := by decide
    have hround := round_of_clamped (q := 0) (by rw [hzero]; decide)
    rw [hzero] at hround
    rw [show Extended.nan.eq .nan = false from rfl, if_neg (by decide), hclamped]
    exact hround
  · obtain ⟨q, -, -, hq, hbyte, hrange⟩ := nearestByte_number x
    have hclamped : Extended.minps (Extended.maxps (.number x) (Extended.rat (-128 : Int)))
        (Extended.rat (127 : Int)) = Extended.rat q := by
      unfold Extended.rat
      rw [Extended.maxps_number, Extended.minps_number, hq]
    rw [Extended.eq_self, if_pos rfl, hclamped, hbyte]
    exact round_of_clamped hrange

theorem convert_eq (ops : Arithmetic) (inv : Extended) (block : Vector Extended 32)
    (start : Nat) : convert ops inv (mm256LoaduPs block start) =
      reg 8 fun i => nearestByte (ops.mul (peek block (start + i)) inv) := by
  refine reg_congr fun i hi => ?_
  unfold mm256MulPs mm256LoaduPs
  rw [peek_reg _ hi, peek_reg _ hi, roundHalfAwayClampedToI32_eq]

-- ---------------------------------------------------------------------------
-- The packs
-- ---------------------------------------------------------------------------

section Packs

variable {q : Nat → Int} (hq : ∀ i, -128 ≤ q i ∧ q i ≤ 127)

include hq

/-- Registers of bytes are packed as they are, lane by lane. -/
theorem mm256PacksEpi32_reg (a b : Nat → Nat) :
    mm256PacksEpi32 (reg 8 fun i => q (a i)) (reg 8 fun i => q (b i)) =
      pure (reg 16 fun i => q (if i % 8 < 4 then a (i / 8 * 4 + i % 4) else b (i / 8 * 4 + i % 4)))
    := by
  refine lanesSaturating_of_fits (fun i hi => ?_) fun i _ => ?_
  · rw [peek_reg _ (by omega), peek_reg _ (by omega), apply_ite q]
  · have hrange := hq (if i % 8 < 4 then a (i / 8 * 4 + i % 4) else b (i / 8 * 4 + i % 4))
    exact ⟨by omega, by omega⟩

theorem mm256PacksEpi16_reg (a b : Nat → Nat) :
    mm256PacksEpi16 (reg 16 fun i => q (a i)) (reg 16 fun i => q (b i)) =
      pure (reg 32 fun i =>
        q (if i % 16 < 8 then a (i / 16 * 8 + i % 8) else b (i / 16 * 8 + i % 8))) := by
  refine lanesSaturating_of_fits (fun i hi => ?_) fun i _ => ?_
  · rw [peek_reg _ (by omega), peek_reg _ (by omega), apply_ite q]
  · have hrange := hq (if i % 16 < 8 then a (i / 16 * 8 + i % 8) else b (i / 16 * 8 + i % 8))
    exact ⟨by omega, by omega⟩

end Packs

/-- The kernel returns what the portable quantizer does, and no pack saturates. -/
theorem quantizeQ8_0BlockAvx2_eq (ops : Arithmetic) (block : Vector Extended 32) :
    quantizeQ8_0BlockAvx2 ops block = pure ((extended ops).quantize block.toList) := by
  rw [quantize_extended]
  unfold quantizeQ8_0BlockAvx2
  dsimp only
  rw [maxAbs_eq]
  set invScale := ((extended ops).scales _).2
  let q (i : Nat) := nearestByte (ops.mul (peek block i) invScale)
  have hq : ∀ i, -128 ≤ q i ∧ q i ≤ 127 := fun i => nearestByte_range _
  simp only [convert_eq]
  rw [show mm256PacksEpi32 (reg 8 fun i => q (8 * 0 + i)) (reg 8 fun i => q (8 * 1 + i)) = _ from
      mm256PacksEpi32_reg hq _ _,
    show mm256PacksEpi32 (reg 8 fun i => q (8 * 2 + i)) (reg 8 fun i => q (8 * 3 + i)) = _ from
      mm256PacksEpi32_reg hq _ _, Laned.pure_bind, Laned.pure_bind, mm256PacksEpi16_reg hq,
    Laned.pure_bind]
  refine congrArg (fun quants => pure (Quantized.mk _ quants)) (reg_congr fun i hi => ?_)
  have hbound : ∀ i < 32, 4 * peek #v[0, 4, 1, 5, 2, 6, 3, 7] (i / 4) + i % 4 < 32 := by decide
  rw [peek_reg _ (hbound i hi)]
  -- the permutation undoes the packs, at each of the places
  refine congrArg q ?_
  revert i
  decide

end Avx2Quantizer

end CamelidEnterprise

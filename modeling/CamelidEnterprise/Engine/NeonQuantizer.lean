import CamelidEnterprise.Engine.Quantizer

/-!
# Camelid Enterprise — the NEON quantizer

`quantize_q8_0_block` of `crates/engine-macos/src/q8_dot.rs` over extended numbers: the
dispatcher and, instruction by instruction, its NEON kernel.

* `quantizeQ8_0Block_agrees_iff` — the kernel agrees with the portable quantizer where no
  value is a NaN, and else where the NaNs are all at even or all at odd places and no number
  there exceeds the others in magnitude.
-/

namespace CamelidEnterprise

open Foundation Foundation.Buffer Foundation.Lanes

namespace NeonQuantizer

open Quantizer

-- ---------------------------------------------------------------------------
-- Instructions
-- ---------------------------------------------------------------------------

/-- `vld1q_f32` -/
def vld1qF32 (block : Vector Extended 32) (start : Nat) : Vector Extended 4 :=
  reg 4 fun i => peek block (start + i)

/-- `vabsq_f32` -/
def vabsqF32 (a : Vector Extended 4) : Vector Extended 4 := reg 4 fun i => (peek a i).abs

/-- `vmaxq_f32` and `vmax_f32` -/
def vmaxF32 {n : Nat} (a b : Vector Extended n) : Vector Extended n :=
  reg n fun i => Extended.fmax (peek a i) (peek b i)

/-- `vminq_f32` -/
def vminqF32 (a b : Vector Extended 4) : Vector Extended 4 :=
  reg 4 fun i => Extended.fmin (peek a i) (peek b i)

/-- `vdupq_n_f32` -/
def vdupqNF32 (x : Extended) : Vector Extended 4 := reg 4 fun _ => x

/-- `vmulq_f32` -/
def vmulqF32 (ops : Arithmetic) (a b : Vector Extended 4) : Vector Extended 4 :=
  reg 4 fun i => ops.mul (peek a i) (peek b i)

/-- `vget_low_f32` -/
def vgetLowF32 (a : Vector Extended 4) : Vector Extended 2 := reg 2 fun i => peek a i

/-- `vget_high_f32` -/
def vgetHighF32 (a : Vector Extended 4) : Vector Extended 2 := reg 2 fun i => peek a (2 + i)

/-- `vcvtaq_s32_f32`: to nearest, ties away from zero, saturating. -/
def vcvtaqS32F32 (a : Vector Extended 4) : Vector Int 4 :=
  reg 4 fun i => Extended.toInt Extended.roundHalfAway 32 (peek a i)

/-- `vmovn_s32`: the low half of each lane. -/
def vmovnS32 (a : Vector Int 4) : Laned (Vector Int 4) := lanes 16 4 (peek a)

/-- `vqmovn_s16`: each lane in a byte, saturating. -/
def vqmovnS16 (a : Vector Int 8) : Laned (Vector Int 8) := lanesSaturating 8 8 (peek a)

/-- `vcombine_s16` and `vcombine_s8` -/
def vcombine {n : Nat} (low high : Vector Int n) : Vector Int (2 * n) :=
  reg (2 * n) fun i => if i < n then peek low i else peek high (i - n)

/-- `vst1q_s8` at the start of a buffer and at its middle. -/
def storeHalves (low high : Vector Int 16) : Vector Int 32 := vcombine low high

-- ---------------------------------------------------------------------------
-- The kernel
-- ---------------------------------------------------------------------------

/-- `max_abs` -/
def maxAbs (block : Vector Extended 32) : Extended :=
  let abs (k : Nat) := vabsqF32 (vld1qF32 block (4 * k))
  let max01 := vmaxF32 (abs 0) (abs 1)
  let max23 := vmaxF32 (abs 2) (abs 3)
  let max45 := vmaxF32 (abs 4) (abs 5)
  let max67 := vmaxF32 (abs 6) (abs 7)
  let max03 := vmaxF32 max01 max23
  let max47 := vmaxF32 max45 max67
  let maxVec := vmaxF32 max03 max47
  let maxHalf := vmaxF32 (vgetLowF32 maxVec) (vgetHighF32 maxVec)
  Extended.maximum (peek maxHalf 0) (peek maxHalf 1)

/-- Four values scaled, clamped, rounded and narrowed: `i16_0` to `i16_7`. -/
def convert (ops : Arithmetic) (invScale : Extended) (v : Vector Extended 4) :
    Laned (Vector Int 4) :=
  let scaled := vmulqF32 ops v (vdupqNF32 invScale)
  let lo := vdupqNF32 (Extended.rat (-128 : Int))
  let hi := vdupqNF32 (Extended.rat (127 : Int))
  vmovnS32 (vcvtaqS32F32 (vminqF32 (vmaxF32 scaled lo) hi))

/-- `neon::quantize_q8_0_block` -/
def quantizeBlock (ops : Arithmetic) (block : Vector Extended 32) :
    Laned (Quantized Extended) := do
  let (scale, invScale) := (extended ops).scales (maxAbs block)
  let v (k : Nat) := vld1qF32 block (4 * k)
  let i16_0 ← convert ops invScale (v 0)
  let i16_1 ← convert ops invScale (v 1)
  let i16_2 ← convert ops invScale (v 2)
  let i16_3 ← convert ops invScale (v 3)
  let i16_4 ← convert ops invScale (v 4)
  let i16_5 ← convert ops invScale (v 5)
  let i16_6 ← convert ops invScale (v 6)
  let i16_7 ← convert ops invScale (v 7)
  let i8_01 ← vqmovnS16 (vcombine i16_0 i16_1)
  let i8_23 ← vqmovnS16 (vcombine i16_2 i16_3)
  let i8_45 ← vqmovnS16 (vcombine i16_4 i16_5)
  let i8_67 ← vqmovnS16 (vcombine i16_6 i16_7)
  let i8_03 := vcombine i8_01 i8_23
  let i8_47 := vcombine i8_45 i8_67
  pure ⟨scale, storeHalves i8_03 i8_47⟩

/-- `quantize_q8_0_block`; a block of another length goes to the portable quantizer. -/
def quantizeQ8_0Block (ops : Arithmetic) (block : List Extended) : Quantized Extended :=
  if h : block.length = 32 then (quantizeBlock ops ⟨block.toArray, h⟩).value
  else (extended ops).quantize block

-- ---------------------------------------------------------------------------
-- The greatest magnitude
-- ---------------------------------------------------------------------------

/-- The places of one parity. -/
def places (parity : Nat) : Finset Nat := (Finset.range 32).filter fun i => i % 2 = parity

section Tree

variable (f : Nat → Extended)

/-- A register whose lanes hold the greatest of the floats at some places. -/
def summits (n : Nat) (s : Nat → Finset Nat) : Vector Extended n :=
  reg n fun i => Extended.summit f (s i)

theorem vmaxF32_summits {n : Nat} (s t : Nat → Finset Nat) :
    vmaxF32 (summits f n s) (summits f n t) = summits f n fun i => s i ∪ t i := by
  refine reg_congr fun i hi => ?_
  unfold summits
  rw [peek_reg _ hi, peek_reg _ hi, Extended.fmax_summit]

theorem vgetLowF32_summits (s : Nat → Finset Nat) :
    vgetLowF32 (summits f 4 s) = summits f 2 s :=
  reg_congr fun i hi => peek_reg _ (show i < 4 by omega)

theorem vgetHighF32_summits (s : Nat → Finset Nat) :
    vgetHighF32 (summits f 4 s) = summits f 2 fun i => s (2 + i) :=
  reg_congr fun i hi => peek_reg _ (show 2 + i < 4 by omega)

end Tree

theorem vabsqF32_vld1qF32 (block : Vector Extended 32) (start : Nat) :
    vabsqF32 (vld1qF32 block start) = summits (magnitudes block) 4 fun i => {start + i} := by
  refine reg_congr fun i hi => ?_
  unfold vld1qF32
  rw [peek_reg _ hi, Extended.summit_singleton]
  rfl

/-- The tree takes the greatest magnitude at even places and at odd ones. -/
theorem maxAbs_eq (block : Vector Extended 32) :
    maxAbs block = Extended.maximum (Extended.summit (magnitudes block) (places 0))
      (Extended.summit (magnitudes block) (places 1)) := by
  unfold maxAbs
  simp only [vabsqF32_vld1qF32, vmaxF32_summits, vgetLowF32_summits, vgetHighF32_summits]
  unfold summits
  rw [peek_reg _ (by decide), peek_reg _ (by decide)]
  congr 2
  · decide
  · decide

-- ---------------------------------------------------------------------------
-- The quants
-- ---------------------------------------------------------------------------

/-- A lane is clamped and rounded to the nearest byte. -/
theorem vcvtaq_lane (x : Extended) :
    Extended.toInt Extended.roundHalfAway 32 (Extended.fmin (Extended.fmax x
      (Extended.rat (-128 : Int))) (Extended.rat (127 : Int))) = nearestByte x := by
  rcases x with _ | x
  · rfl
  · obtain ⟨q, -, -, hq, hbyte, hlow, hhigh⟩ := nearestByte_number x
    rw [hbyte]
    unfold Extended.rat
    rw [Extended.fmax_number, Extended.fmin_number, hq]
    exact Extended.toInt_rat _ ⟨by omega, by omega⟩

theorem convert_eq (ops : Arithmetic) (invScale : Extended) (block : Vector Extended 32)
    (start : Nat) : convert ops invScale (vld1qF32 block start) =
      pure (reg 4 fun i => nearestByte (ops.mul (peek block (start + i)) invScale)) := by
  refine lanes_of_fits (by decide) (fun i hi => ?_) fun i _ => ?_
  · unfold vcvtaqS32F32 vminqF32 vmaxF32 vmulqF32 vdupqNF32 vld1qF32
    simp only [peek_reg _ hi]
    exact vcvtaq_lane _
  · have hrange := nearestByte_range (ops.mul (peek block (start + i)) invScale)
    exact ⟨by omega, by omega⟩

/-- Two registers of adjacent integers side by side. -/
theorem vcombine_reg {n : Nat} (q : Nat → Int) {start : Nat} :
    vcombine (reg n fun i => q (start + i)) (reg n fun i => q (start + n + i)) =
      reg (2 * n) fun i => q (start + i) := by
  refine reg_congr fun i hi => ?_
  split
  · rename_i h
    rw [peek_reg _ h]
  · rename_i h
    rw [peek_reg _ (by omega)]
    exact congrArg q (by omega)

/-- `vqmovn_s16` leaves bytes as they are. -/
theorem vqmovnS16_reg {q : Nat → Int} (hq : ∀ i, -128 ≤ q i ∧ q i ≤ 127) (start : Nat) :
    vqmovnS16 (vcombine (reg 4 fun i => q (start + i)) (reg 4 fun i => q (start + 4 + i))) =
      pure (reg 8 fun i => q (start + i)) := by
  rw [vcombine_reg]
  refine lanesSaturating_of_fits (fun i hi => peek_reg _ hi) fun i _ => ?_
  have hrange := hq (start + i)
  exact ⟨by omega, by omega⟩

/-- Each value is rounded to the nearest byte, and no lane loses anything on the way. -/
theorem quantizeBlock_eq (ops : Arithmetic) (block : Vector Extended 32) :
    quantizeBlock ops block =
      (let (scale, invScale) := (extended ops).scales (maxAbs block)
      pure ⟨scale, reg 32 fun i => nearestByte (ops.mul (peek block i) invScale)⟩) := by
  unfold quantizeBlock
  dsimp only
  set invScale := ((extended ops).scales (maxAbs block)).2
  let q (i : Nat) := nearestByte (ops.mul (peek block i) invScale)
  have hq : ∀ i, -128 ≤ q i ∧ q i ≤ 127 := fun i => nearestByte_range _
  have hbytes (k start : Nat) (h : start = 4 * k) :
      vqmovnS16 (vcombine (reg 4 fun i => q (4 * k + i)) (reg 4 fun i => q (4 * (k + 1) + i))) =
        pure (reg 8 fun i => q (start + i)) := by
    subst h
    exact vqmovnS16_reg hq (4 * k)
  simp only [convert_eq, Laned.pure_bind]
  rw [show vqmovnS16 (vcombine (reg 4 fun i => q (4 * 0 + i)) (reg 4 fun i => q (4 * 1 + i))) =
      pure (reg 8 fun i => q (0 + i)) from hbytes 0 0 rfl,
    show vqmovnS16 (vcombine (reg 4 fun i => q (4 * 2 + i)) (reg 4 fun i => q (4 * 3 + i))) =
      pure (reg 8 fun i => q (0 + 8 + i)) from hbytes 2 8 rfl,
    show vqmovnS16 (vcombine (reg 4 fun i => q (4 * 4 + i)) (reg 4 fun i => q (4 * 5 + i))) =
      pure (reg 8 fun i => q (0 + 16 + i)) from hbytes 4 16 rfl,
    show vqmovnS16 (vcombine (reg 4 fun i => q (4 * 6 + i)) (reg 4 fun i => q (4 * 7 + i))) =
      pure (reg 8 fun i => q (0 + 16 + 8 + i)) from hbytes 6 24 rfl,
    Laned.pure_bind, Laned.pure_bind, Laned.pure_bind, Laned.pure_bind, vcombine_reg, vcombine_reg]
  unfold storeHalves
  rw [show vcombine (reg 16 fun i => q (0 + i)) (reg 16 fun i => q (0 + 16 + i)) =
    reg 32 fun i => q (0 + i) from vcombine_reg q]
  simp only [Nat.zero_add]
  rfl

-- ---------------------------------------------------------------------------
-- Agreement
-- ---------------------------------------------------------------------------

/-- No value at a place of this parity is a NaN, and none of the numbers at the other places
exceeds them all in magnitude. -/
def ParityLeads (block : Vector Extended 32) (parity : Nat) : Prop :=
  (∀ i < 32, i % 2 = parity → peek block i ≠ .nan) ∧
    ∀ i < 32, i % 2 ≠ parity → ∀ x, peek block i = .number x →
      ∃ j < 32, j % 2 = parity ∧ ∃ y, peek block j = .number y ∧
        Extended.magnitude x ≤ Extended.magnitude y

/-- No NaN hides the greatest magnitude from the tree. -/
def MagnitudeKept (block : Vector Extended 32) : Prop :=
  (∀ i < 32, peek block i ≠ .nan) ∨ ∃ parity < 2, ParityLeads block parity

theorem magnitudes_eq_nan_iff (block : Vector Extended 32) (i : Nat) :
    magnitudes block i = .nan ↔ peek block i = .nan := by
  unfold magnitudes
  rcases peek block i with _ | x
  · simp [Extended.abs]
  · simp [Extended.abs]

theorem magnitudes_of_number {block : Vector Extended 32} {i : Nat} {x : WithBotTop ℚ}
    (h : peek block i = .number x) : magnitudes block i = .number (Extended.magnitude x) := by
  unfold magnitudes
  rw [h]
  rfl

theorem mem_places {parity i : Nat} : i ∈ places parity ↔ i < 32 ∧ i % 2 = parity := by
  unfold places
  rw [Finset.mem_filter, Finset.mem_range]

theorem parityLeads_iff (block : Vector Extended 32) {parity other : Nat}
    (hparity : ∀ i, i % 2 ≠ parity ↔ i % 2 = other) :
    ParityLeads block parity ↔
      Extended.Leads (magnitudes block) (places parity) (places other) := by
  constructor
  · rintro ⟨hnan, hlead⟩
    constructor
    · intro i hi
      rw [mem_places] at hi
      rw [Ne, magnitudes_eq_nan_iff]
      exact hnan i hi.1 hi.2
    · intro i hi
      rw [mem_places, ← hparity] at hi
      rcases hx : peek block i with _ | x
      · exact .inl ((magnitudes_eq_nan_iff block i).mpr hx)
      · obtain ⟨j, hj, hodd, y, hy, hle⟩ := hlead i hi.1 hi.2 x hx
        refine .inr ⟨j, mem_places.mpr ⟨hj, hodd⟩, ?_⟩
        rw [magnitudes_of_number hx, magnitudes_of_number hy]
        exact hle
  · rintro ⟨hnan, hlead⟩
    constructor
    · intro i hi hodd
      rw [Ne, ← magnitudes_eq_nan_iff]
      exact hnan i (mem_places.mpr ⟨hi, hodd⟩)
    · intro i hi hodd x hx
      rcases hlead i (mem_places.mpr ⟨hi, (hparity i).mp hodd⟩) with hnone | ⟨j, hj, hle⟩
      · rw [magnitudes_of_number hx] at hnone
        exact absurd hnone (by simp)
      · rcases hy : peek block j with _ | y
        · exact absurd ((magnitudes_eq_nan_iff block j).mpr hy) (hnan j hj)
        · rw [mem_places] at hj
          rw [magnitudes_of_number hx, magnitudes_of_number hy] at hle
          exact ⟨j, hj.1, hj.2, y, hy, hle⟩

theorem magnitudeKept_iff (block : Vector Extended 32) :
    MagnitudeKept block ↔
      maxAbs block = .number (Extended.greatest (magnitudes block) (Finset.range 32)) := by
  have hplaces : Finset.range 32 = places 0 ∪ places 1 := by decide
  have hnone : (∀ i < 32, peek block i ≠ .nan) ↔
      ∀ i ∈ places 0 ∪ places 1, magnitudes block i ≠ .nan := by
    rw [← hplaces]
    simp only [Finset.mem_range, Ne, magnitudes_eq_nan_iff]
  have heither : (∃ parity < 2, ParityLeads block parity) ↔
      ParityLeads block 0 ∨ ParityLeads block 1 := by
    constructor
    · rintro ⟨parity, hparity, hlead⟩
      obtain rfl | rfl : parity = 0 ∨ parity = 1 := by omega
      · exact .inl hlead
      · exact .inr hlead
    · rintro (hlead | hlead)
      · exact ⟨0, by decide, hlead⟩
      · exact ⟨1, by decide, hlead⟩
  rw [maxAbs_eq, hplaces, Extended.maximum_summit_eq_iff (magnitudes_nonneg block)
    ⟨0, by decide⟩ ⟨1, by decide⟩, ← hnone, ← parityLeads_iff block (fun i => by omega),
    ← parityLeads_iff block (fun i => by omega), ← heither]
  rfl

theorem quantizeQ8_0Block_toList (ops : Arithmetic) (block : Vector Extended 32) :
    quantizeQ8_0Block ops block.toList = (quantizeBlock ops block).value :=
  dif_pos (Vector.length_toList)

/-- The kernel agrees with the portable quantizer, whatever the arithmetic, exactly where no
NaN hides the greatest magnitude. -/
theorem quantizeQ8_0Block_agrees_iff (block : Vector Extended 32) :
    (∀ ops, quantizeQ8_0Block ops block.toList = (extended ops).quantize block.toList) ↔
      MagnitudeKept block := by
  rw [magnitudeKept_iff]
  constructor
  · intro h
    -- an arithmetic that keeps the greatest magnitude in the scale
    have hscale := congrArg Quantized.scale (h ⟨fun x _ => x, fun x _ => x, id⟩)
    rw [quantizeQ8_0Block_toList, quantizeBlock_eq, quantize_extended] at hscale
    exact hscale
  · intro h ops
    rw [quantizeQ8_0Block_toList, quantizeBlock_eq, quantize_extended, h]
    rfl

/-- A NaN, a zero and a one, and zeros. -/
def nanFirst : Vector Extended 32 :=
  reg 32 fun i => if i = 0 then .nan else if i = 2 then 1 else 0

/-- The NaN hides the one from the kernel, which stores a scale of zero. -/
theorem quantizeQ8_0Block_nanFirst :
    quantizeQ8_0Block .rational nanFirst.toList ≠ (extended .rational).quantize nanFirst.toList ∧
      (quantizeQ8_0Block .rational nanFirst.toList).scale = 0 ∧
      ((extended .rational).quantize nanFirst.toList).scale = Extended.rat (1 / 127) := by
  decide +kernel

end NeonQuantizer

end CamelidEnterprise

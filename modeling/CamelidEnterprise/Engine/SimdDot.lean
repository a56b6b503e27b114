import CamelidEnterprise.Engine.Tensor
import CamelidEnterprise.Foundation.Lanes

/-!
# Camelid Enterprise — accelerated row dots

The Q8_0 row dots of `crates/engine-windows/src/q8_dot.rs` (AVX2) and
`crates/engine-macos/src/q8_dot.rs` (NEON, with the dot-product instruction or the widening
multiply), instruction by instruction, and the regrouped scalar sum of
`crates/engine-core/src/tensor/q8_dot.rs`. A kernel returns with the word whether every lane
of every instruction held its integer.

What is left out: which of them a machine can run, and how the rows are divided over its
threads. An instruction is what its vendor says it does to the lanes of its operands.

* `dotRows_accelerated` — no lane overflows in any of them, and they return what the portable
  row dot does.
-/

namespace CamelidEnterprise

open Foundation Foundation.Buffer Foundation.Lanes

namespace SimdDot

/-- A load of `n` signed bytes. -/
def loadI8 (quants : Vector Int8 32) (start n : Nat) : Vector Int n :=
  reg n fun i => (peek quants (start + i)).toInt

/-- The lanes of a register from `start` on. -/
def lanesFrom {n : Nat} (a : Vector Int n) (start len : Nat) : Vector Int len :=
  reg len fun i => peek a (start + i)

/-- `_mm256_add_epi32`, `_mm_add_epi32` and `vaddq_s32` -/
def addI32 {n : Nat} (a b : Vector Int n) : Laned (Vector Int n) :=
  lanes 32 n fun i => peek a i + peek b i

-- ---------------------------------------------------------------------------
-- Portable
-- ---------------------------------------------------------------------------

/-- `group4` -/
def group4 (weight input : Vector Int8 32) (start : Nat) : Laned Int := do
  let product (k : Nat) := scalar 32 ((peek weight k).toInt * (peek input k).toInt)
  let first ← product start
  let second ← product (start + 1)
  let sum ← scalar 32 (first + second)
  let third ← product (start + 2)
  let sum ← scalar 32 (sum + third)
  let fourth ← product (start + 3)
  scalar 32 (sum + fourth)

/-- An element of `lanes`. -/
def lane (weight input : Vector Int8 32) (start : Nat) : Laned Int := do
  let low ← group4 weight input start
  let high ← group4 weight input (start + 16)
  scalar 32 (low + high)

/-- `block_int_dot` -/
def blockIntDot (weight input : Vector Int8 32) : Laned Int := do
  let lane0 ← lane weight input 0
  let lane1 ← lane weight input 4
  let lane2 ← lane weight input 8
  let lane3 ← lane weight input 12
  let low ← scalar 32 (lane0 + lane1)
  let high ← scalar 32 (lane2 + lane3)
  scalar 32 (low + high)

-- ---------------------------------------------------------------------------
-- AVX2
-- ---------------------------------------------------------------------------

/-- `_mm256_cvtepi8_epi16`: sign extension. -/
def mm256Cvtepi8Epi16 (a : Vector Int 16) : Laned (Vector Int 16) := lanes 16 16 (peek a)

/-- `_mm256_madd_epi16`: the products of adjacent pairs, added. -/
def mm256MaddEpi16 (a b : Vector Int 16) : Laned (Vector Int 8) :=
  lanes 32 8 fun i =>
    peek a (2 * i) * peek b (2 * i) + peek a (2 * i + 1) * peek b (2 * i + 1)

/-- `_mm_shuffle_epi32::<IMM>`: lane `i` is the one that bits `2 * i` and up of `IMM` name. -/
def mmShuffleEpi32 (imm : Nat) (a : Vector Int 4) : Vector Int 4 :=
  reg 4 fun i => peek a (imm / 4 ^ i % 4)

/-- `horizontal_sum_i32x8` -/
def horizontalSumI32x8 (acc : Vector Int 8) : Laned Int := do
  let hi := lanesFrom acc 4 4
  let lo := lanesFrom acc 0 4
  let sum ← addI32 lo hi
  let sum ← addI32 sum (mmShuffleEpi32 0x4e sum)
  let sum ← addI32 sum (mmShuffleEpi32 0xb1 sum)
  pure (peek sum 0)

/-- `q8_0_i8_block_avx2` -/
def q8_0I8BlockAvx2 (weight input : Vector Int8 32) : Laned Int := do
  let wLo ← mm256Cvtepi8Epi16 (loadI8 weight 0 16)
  let wHi ← mm256Cvtepi8Epi16 (loadI8 weight 16 16)
  let iLo ← mm256Cvtepi8Epi16 (loadI8 input 0 16)
  let iHi ← mm256Cvtepi8Epi16 (loadI8 input 16 16)
  let lo ← mm256MaddEpi16 wLo iLo
  let hi ← mm256MaddEpi16 wHi iHi
  let acc ← addI32 lo hi
  horizontalSumI32x8 acc

-- ---------------------------------------------------------------------------
-- NEON
-- ---------------------------------------------------------------------------

/-- `sdot`: four products of bytes added to each lane. -/
def sdot (acc : Vector Int 4) (a b : Vector Int 16) : Laned (Vector Int 4) :=
  lanes 32 4 fun i =>
    peek acc i + peek a (4 * i) * peek b (4 * i) + peek a (4 * i + 1) * peek b (4 * i + 1) +
      peek a (4 * i + 2) * peek b (4 * i + 2) + peek a (4 * i + 3) * peek b (4 * i + 3)

/-- `vmull_s8`: products of bytes in lanes of 16 bits. -/
def vmullS8 (a b : Vector Int 8) : Laned (Vector Int 8) := lanes 16 8 fun i => peek a i * peek b i

/-- `vpaddlq_s16`: adjacent pairs added, in lanes of 32 bits. -/
def vpaddlqS16 (a : Vector Int 8) : Laned (Vector Int 4) :=
  lanes 32 4 fun i => peek a (2 * i) + peek a (2 * i + 1)

/-- `horizontal_sum_i32x4`, which is `vaddvq_s32` -/
def horizontalSumI32x4 (acc : Vector Int 4) : Laned Int :=
  scalar 32 (peek acc 0 + peek acc 1 + peek acc 2 + peek acc 3)

/-- `q8_0_i8_block_dotprod` -/
def q8_0I8BlockDotprod (weight input : Vector Int8 32) : Laned Int := do
  let weightLo := loadI8 weight 0 16
  let inputLo := loadI8 input 0 16
  let weightHi := loadI8 weight 16 16
  let inputHi := loadI8 input 16 16
  let acc := reg 4 fun _ => 0
  let acc ← sdot acc weightLo inputLo
  let acc ← sdot acc weightHi inputHi
  horizontalSumI32x4 acc

/-- `vaddq_s32(acc, vpaddlq_s16(vmull_s8(..)))` on a half of two registers of bytes. -/
def accumulate (acc : Vector Int 4) (a b : Vector Int 16) (start : Nat) :
    Laned (Vector Int 4) := do
  let products ← vmullS8 (lanesFrom a start 8) (lanesFrom b start 8)
  let pairs ← vpaddlqS16 products
  addI32 acc pairs

/-- `q8_0_i8_block_neon_mul` -/
def q8_0I8BlockNeonMul (weight input : Vector Int8 32) : Laned Int := do
  let weightLo := loadI8 weight 0 16
  let inputLo := loadI8 input 0 16
  let weightHi := loadI8 weight 16 16
  let inputHi := loadI8 input 16 16
  let acc := reg 4 fun _ => 0
  let acc ← accumulate acc weightLo inputLo 0
  let acc ← accumulate acc weightLo inputLo 8
  let acc ← accumulate acc weightHi inputHi 0
  let acc ← accumulate acc weightHi inputHi 8
  horizontalSumI32x4 acc

-- ---------------------------------------------------------------------------
-- Rows
-- ---------------------------------------------------------------------------

section Rows

variable [FloatOps]

/-- The loop of the accelerated row dots. -/
def dotRows (block : Vector Int8 32 → Vector Int8 32 → Laned Int)
    (weight input : List Q8_0Block) : Laned F32 :=
  (List.zip weight input).foldlM (fun totalSum (w, i) => do
    let intSum ← block w.quants i.quants
    pure (totalSum + F32.ofInt intSum * w.scale * i.scale)) (-0)

/-- `q8_0_dot_rows_avx2` -/
def q8_0DotRowsAvx2 : List Q8_0Block → List Q8_0Block → Laned F32 := dotRows q8_0I8BlockAvx2

/-- `q8_0_dot_rows_neon_dotprod` -/
def q8_0DotRowsNeonDotprod : List Q8_0Block → List Q8_0Block → Laned F32 :=
  dotRows q8_0I8BlockDotprod

/-- `q8_0_dot_rows_neon_mul` -/
def q8_0DotRowsNeonMul : List Q8_0Block → List Q8_0Block → Laned F32 := dotRows q8_0I8BlockNeonMul

end Rows

-- ---------------------------------------------------------------------------
-- Sums of products
-- ---------------------------------------------------------------------------

/-- The product of quants at an index. -/
def product (weight input : Vector Int8 32) (k : Nat) : Int :=
  (peek weight k).toInt * (peek input k).toInt

/-- No larger than a sum of `n` products of bytes can be. -/
def Within (n : Nat) (x : Int) : Prop := -(16384 * n) ≤ x ∧ x ≤ 16384 * n

theorem Within.add {n m : Nat} {x y : Int} (hx : Within n x) (hy : Within m y) :
    Within (n + m) (x + y) := by
  unfold Within at *
  push_cast
  omega

theorem Within.inLane {n : Nat} {x : Int} (h : Within n x) (hn : n ≤ 32) : InLane 32 x := by
  unfold Within at h
  unfold InLane
  omega

theorem Within.scalar {n : Nat} {x : Int} (h : Within n x) (hn : n ≤ 32) : scalar 32 x = pure x :=
  scalar_of_fits (by decide) (h.inLane hn)

section Blocks

variable (weight input : Vector Int8 32)

theorem byte_bounds (quants : Vector Int8 32) (k : Nat) :
    -128 ≤ (peek quants k).toInt ∧ (peek quants k).toInt ≤ 127 :=
  ⟨Int8.le_toInt _, Int.le_of_lt_add_one (Int8.toInt_lt _)⟩

theorem product_within (k : Nat) : Within 1 (product weight input k) := by
  have h := mul_bytes (byte_bounds weight k) (byte_bounds input k)
  unfold Within product
  omega

/-- The sum of the products of the quants from `start` on. -/
def productsFrom (start : Nat) : Nat → Int
  | 0 => 0
  | n + 1 => productsFrom start n + product weight input (start + n)

theorem productsFrom_within (start n : Nat) : Within n (productsFrom weight input start n) := by
  induction n with
  | zero => simp [Within, productsFrom]
  | succ n ih => exact ih.add (product_within weight input _)

theorem blockIntDot_eq_productsFrom :
    CamelidEnterprise.blockIntDot weight input = productsFrom weight input 0 32 := by
  have hsum : ∀ n, ((List.range n).map (product weight input)).sum =
      productsFrom weight input 0 n := by
    intro n
    induction n with
    | zero => rfl
    | succ n ih =>
      rw [List.range_succ, List.map_append, List.sum_append, ih]
      simp [productsFrom]
  rw [← hsum]
  refine congrArg List.sum (List.ext_getElem (by simp) fun k hk hk' => ?_)
  have hlt : k < 32 := by simpa using hk'
  rw [List.getElem_zipWith, List.getElem_map, List.getElem_range, Vector.getElem_toList,
    Vector.getElem_toList]
  unfold product
  rw [peek_of_lt _ hlt, peek_of_lt _ hlt]

-- ---------------------------------------------------------------------------
-- The portable sum
-- ---------------------------------------------------------------------------

theorem group4_eq (start : Nat) :
    group4 weight input start = pure (productsFrom weight input start 4) := by
  have hproduct : ∀ k, scalar 32 ((peek weight k).toInt * (peek input k).toInt) =
      pure (product weight input k) := fun k => (product_within weight input k).scalar (by decide)
  have hsum : ∀ n < 4, scalar 32 (productsFrom weight input start n +
      product weight input (start + n)) = pure (productsFrom weight input start (n + 1)) :=
    fun n hn => (productsFrom_within weight input start (n + 1)).scalar (by omega)
  have hfirst : product weight input start = productsFrom weight input start 1 := by
    simp [productsFrom]
  unfold group4
  dsimp only
  rw [hproduct, Laned.pure_bind, hproduct, Laned.pure_bind, hfirst, hsum 1 (by decide),
    Laned.pure_bind, hproduct, Laned.pure_bind, hsum 2 (by decide), Laned.pure_bind, hproduct,
    Laned.pure_bind, hsum 3 (by decide)]

theorem lane_eq (start : Nat) : lane weight input start =
    pure (productsFrom weight input start 4 + productsFrom weight input (start + 16) 4) := by
  have hwithin := (productsFrom_within weight input start 4).add
    (productsFrom_within weight input (start + 16) 4)
  unfold lane
  rw [group4_eq, Laned.pure_bind, group4_eq, Laned.pure_bind, hwithin.scalar (by decide)]

theorem blockIntDot_eq :
    blockIntDot weight input = pure (CamelidEnterprise.blockIntDot weight input) := by
  have hgroup : ∀ start, Within 8
      (productsFrom weight input start 4 + productsFrom weight input (start + 16) 4) := fun start =>
    (productsFrom_within weight input start 4).add (productsFrom_within weight input (start + 16) 4)
  unfold blockIntDot
  rw [lane_eq, Laned.pure_bind, lane_eq, Laned.pure_bind, lane_eq, Laned.pure_bind, lane_eq,
    Laned.pure_bind, ((hgroup 0).add (hgroup 4)).scalar (by decide), Laned.pure_bind,
    ((hgroup 8).add (hgroup 12)).scalar (by decide), Laned.pure_bind,
    (((hgroup 0).add (hgroup 4)).add ((hgroup 8).add (hgroup 12))).scalar (by decide),
    blockIntDot_eq_productsFrom]
  refine congrArg pure ?_
  simp only [productsFrom, Nat.zero_add, Nat.reduceAdd]
  omega

-- ---------------------------------------------------------------------------
-- Registers of sums
-- ---------------------------------------------------------------------------

theorem lanesFrom_reg {n start len : Nat} (f : Nat → Int) (h : start + len ≤ n) :
    lanesFrom (reg n f) start len = reg len fun i => f (start + i) :=
  reg_congr fun _ hi => peek_reg f (by omega)

theorem mmShuffleEpi32_reg (imm : Nat) (f : Nat → Int) :
    mmShuffleEpi32 imm (reg 4 f) = reg 4 fun i => f (imm / 4 ^ i % 4) :=
  reg_congr fun _ _ => peek_reg f (Nat.mod_lt _ (by decide))

theorem addI32_reg {n a b : Nat} {f g : Nat → Int} (hf : ∀ i, Within a (f i))
    (hg : ∀ i, Within b (g i)) (hab : a + b ≤ 32) :
    addI32 (reg n f) (reg n g) = pure (reg n fun i => f i + g i) :=
  lanes_of_fits (by decide) (fun i hi => by rw [peek_reg f hi, peek_reg g hi])
    fun i _ => ((hf i).add (hg i)).inLane hab

-- ---------------------------------------------------------------------------
-- AVX2
-- ---------------------------------------------------------------------------

theorem mm256Cvtepi8Epi16_loadI8 (quants : Vector Int8 32) (start : Nat) :
    mm256Cvtepi8Epi16 (loadI8 quants start 16) = pure (loadI8 quants start 16) := by
  refine lanes_of_fits (by decide) (fun i hi => peek_reg _ hi) fun i _ => ?_
  have hbyte := byte_bounds quants (start + i)
  unfold InLane
  omega

theorem mm256MaddEpi16_loadI8 (start : Nat) :
    mm256MaddEpi16 (loadI8 weight start 16) (loadI8 input start 16) =
      pure (reg 8 fun i => productsFrom weight input (start + 2 * i) 2) := by
  refine lanes_of_fits (by decide) (fun i hi => ?_) fun i _ =>
    (productsFrom_within weight input _ 2).inLane (by decide)
  unfold loadI8
  rw [peek_reg _ (by omega), peek_reg _ (by omega), peek_reg _ (by omega), peek_reg _ (by omega)]
  simp only [productsFrom, product, Nat.add_zero, Nat.add_assoc, Int.zero_add]

theorem q8_0I8BlockAvx2_eq :
    q8_0I8BlockAvx2 weight input = pure (CamelidEnterprise.blockIntDot weight input) := by
  have hpair : ∀ start i, Within 2 (productsFrom weight input (start + 2 * i) 2) :=
    fun start i => productsFrom_within weight input (start + 2 * i) 2
  have hacc : ∀ i, Within 4 (productsFrom weight input (0 + 2 * i) 2 +
      productsFrom weight input (16 + 2 * i) 2) := fun i => (hpair 0 i).add (hpair 16 i)
  unfold q8_0I8BlockAvx2 horizontalSumI32x8
  rw [mm256Cvtepi8Epi16_loadI8, Laned.pure_bind, mm256Cvtepi8Epi16_loadI8, Laned.pure_bind,
    mm256Cvtepi8Epi16_loadI8, Laned.pure_bind, mm256Cvtepi8Epi16_loadI8, Laned.pure_bind,
    mm256MaddEpi16_loadI8, Laned.pure_bind, mm256MaddEpi16_loadI8, Laned.pure_bind,
    addI32_reg (hpair 0) (hpair 16) (by decide), Laned.pure_bind]
  dsimp only
  -- eight lanes of four products, then four of eight, then two sums across
  rw [lanesFrom_reg _ (by decide), lanesFrom_reg _ (by decide),
    addI32_reg (fun i => hacc (0 + i)) (fun i => hacc (4 + i)) (by decide), Laned.pure_bind,
    mmShuffleEpi32_reg,
    addI32_reg (fun i => (hacc (0 + i)).add (hacc (4 + i)))
      (fun i => (hacc (0 + _)).add (hacc (4 + _))) (by decide), Laned.pure_bind,
    mmShuffleEpi32_reg,
    addI32_reg (fun i => ((hacc (0 + i)).add (hacc (4 + i))).add ((hacc (0 + _)).add (hacc (4 + _))))
      (fun i => ((hacc (0 + _)).add (hacc (4 + _))).add ((hacc (0 + _)).add (hacc (4 + _))))
      (by decide), Laned.pure_bind, peek_reg _ (by decide), blockIntDot_eq_productsFrom]
  refine congrArg pure ?_
  norm_num only [productsFrom]
  omega

-- ---------------------------------------------------------------------------
-- NEON
-- ---------------------------------------------------------------------------

theorem sdot_loadI8 {n : Nat} {f : Nat → Int} (hf : ∀ i, Within n (f i)) (hn : n + 4 ≤ 32)
    (start : Nat) :
    sdot (reg 4 f) (loadI8 weight start 16) (loadI8 input start 16) =
      pure (reg 4 fun i => f i + productsFrom weight input (start + 4 * i) 4) := by
  refine lanes_of_fits (by decide) (fun i hi => ?_) fun i _ =>
    ((hf i).add (productsFrom_within weight input _ 4)).inLane hn
  unfold loadI8
  rw [peek_reg _ hi, peek_reg _ (by omega), peek_reg _ (by omega), peek_reg _ (by omega),
    peek_reg _ (by omega), peek_reg _ (by omega), peek_reg _ (by omega), peek_reg _ (by omega),
    peek_reg _ (by omega)]
  simp only [productsFrom, product, Nat.add_zero, Nat.add_assoc, Int.zero_add, Int.add_assoc]

theorem horizontalSumI32x4_reg {n : Nat} {f : Nat → Int} (hf : ∀ i, Within n (f i))
    (hn : n + n + n + n ≤ 32) :
    horizontalSumI32x4 (reg 4 f) = pure (f 0 + f 1 + f 2 + f 3) := by
  unfold horizontalSumI32x4
  rw [peek_reg f (by decide), peek_reg f (by decide), peek_reg f (by decide),
    peek_reg f (by decide)]
  exact ((((hf 0).add (hf 1)).add (hf 2)).add (hf 3)).scalar hn

theorem q8_0I8BlockDotprod_eq :
    q8_0I8BlockDotprod weight input = pure (CamelidEnterprise.blockIntDot weight input) := by
  have hzero : ∀ _ : Nat, Within 0 0 := fun _ => by simp [Within]
  have hquad : ∀ start i, Within 4 (productsFrom weight input (start + 4 * i) 4) :=
    fun start i => productsFrom_within weight input (start + 4 * i) 4
  unfold q8_0I8BlockDotprod
  dsimp only
  rw [sdot_loadI8 weight input hzero (by decide), Laned.pure_bind,
    sdot_loadI8 weight input (fun i => (hzero i).add (hquad 0 i)) (by decide), Laned.pure_bind,
    horizontalSumI32x4_reg (fun i => ((hzero i).add (hquad 0 i)).add (hquad 16 i)) (by decide),
    blockIntDot_eq_productsFrom]
  refine congrArg pure ?_
  norm_num only [productsFrom]
  omega

theorem vmullS8_loadI8 {start half : Nat} (h : half ≤ 8) :
    vmullS8 (lanesFrom (loadI8 weight start 16) half 8) (lanesFrom (loadI8 input start 16) half 8) =
      pure (reg 8 fun i => product weight input (start + (half + i))) := by
  refine lanes_of_fits (by decide) (fun i hi => ?_) fun i _ => ?_
  · unfold loadI8
    rw [lanesFrom_reg _ (by omega), lanesFrom_reg _ (by omega), peek_reg _ hi, peek_reg _ hi]
    rfl
  · have hproduct := product_within weight input (start + (half + i))
    unfold Within at hproduct
    unfold InLane
    omega

theorem accumulate_loadI8 {n start half : Nat} {f : Nat → Int} (hf : ∀ i, Within n (f i))
    (hn : n + 2 ≤ 32) (hhalf : half ≤ 8) :
    accumulate (reg 4 f) (loadI8 weight start 16) (loadI8 input start 16) half =
      pure (reg 4 fun i => f i + productsFrom weight input (start + (half + 2 * i)) 2) := by
  have hpairs : vpaddlqS16 (reg 8 fun i => product weight input (start + (half + i))) =
      pure (reg 4 fun i => productsFrom weight input (start + (half + 2 * i)) 2) := by
    refine lanes_of_fits (by decide) (fun i hi => ?_) fun i _ =>
      (productsFrom_within weight input _ 2).inLane (by decide)
    rw [peek_reg _ (by omega), peek_reg _ (by omega)]
    simp only [productsFrom, Nat.add_zero, Nat.add_assoc, Int.zero_add]
  unfold accumulate
  rw [vmullS8_loadI8 weight input hhalf, Laned.pure_bind, hpairs, Laned.pure_bind,
    addI32_reg hf (fun i => productsFrom_within weight input _ 2) hn]

theorem q8_0I8BlockNeonMul_eq :
    q8_0I8BlockNeonMul weight input = pure (CamelidEnterprise.blockIntDot weight input) := by
  have hzero : ∀ _ : Nat, Within 0 0 := fun _ => by simp [Within]
  have hpair : ∀ start half i, Within 2 (productsFrom weight input (start + (half + 2 * i)) 2) :=
    fun start half i => productsFrom_within weight input (start + (half + 2 * i)) 2
  have hfirst := fun i => (hzero i).add (hpair 0 0 i)
  have hsecond := fun i => (hfirst i).add (hpair 0 8 i)
  have hthird := fun i => (hsecond i).add (hpair 16 0 i)
  have hfourth := fun i => (hthird i).add (hpair 16 8 i)
  unfold q8_0I8BlockNeonMul
  dsimp only
  rw [accumulate_loadI8 weight input hzero (by decide) (by decide), Laned.pure_bind,
    accumulate_loadI8 weight input hfirst (by decide) (by decide), Laned.pure_bind,
    accumulate_loadI8 weight input hsecond (by decide) (by decide), Laned.pure_bind,
    accumulate_loadI8 weight input hthird (by decide) (by decide), Laned.pure_bind,
    horizontalSumI32x4_reg hfourth (by decide), blockIntDot_eq_productsFrom]
  refine congrArg pure ?_
  norm_num only [productsFrom]
  omega

end Blocks

-- ---------------------------------------------------------------------------
-- Rows
-- ---------------------------------------------------------------------------

section Rows

variable [FloatOps]

/-- A kernel whose blocks are exact folds the terms of the portable row dot, from the same
seed and in the same order. -/
theorem dotRows_eq {block : Vector Int8 32 → Vector Int8 32 → Laned Int}
    (hblock : ∀ w x, block w x = pure (CamelidEnterprise.blockIntDot w x))
    (weight input : List Q8_0Block) :
    dotRows block weight input = pure (q8_0DotRows weight input) := by
  unfold dotRows q8_0DotRows F32.sum
  rw [Laned.foldlM_pure (g := fun totalSum (pair : Q8_0Block × Q8_0Block) =>
    totalSum + F32.ofInt (CamelidEnterprise.blockIntDot pair.1.quants pair.2.quants) *
      pair.1.scale * pair.2.scale)]
  · rw [← List.map_uncurry_zip_eq_zipWith, List.foldl_map]
    rfl
  · rintro ⟨w, i⟩ - totalSum
    dsimp only
    rw [hblock, Laned.pure_bind]

/-- In every kernel the block sums are those of the portable one and no lane overflows, and
the rows are the portable rows. -/
theorem dotRows_accelerated :
    (∀ weight input : Vector Int8 32,
      blockIntDot weight input = pure (CamelidEnterprise.blockIntDot weight input) ∧
      q8_0I8BlockAvx2 weight input = blockIntDot weight input ∧
      q8_0I8BlockDotprod weight input = blockIntDot weight input ∧
      q8_0I8BlockNeonMul weight input = blockIntDot weight input) ∧
    ∀ weight input : List Q8_0Block,
      q8_0DotRowsAvx2 weight input = pure (q8_0DotRows weight input) ∧
      q8_0DotRowsNeonDotprod weight input = pure (q8_0DotRows weight input) ∧
      q8_0DotRowsNeonMul weight input = pure (q8_0DotRows weight input) := by
  constructor
  · intro weight input
    rw [blockIntDot_eq, q8_0I8BlockAvx2_eq, q8_0I8BlockDotprod_eq, q8_0I8BlockNeonMul_eq]
    exact ⟨rfl, rfl, rfl, rfl⟩
  · intro weight input
    exact ⟨dotRows_eq q8_0I8BlockAvx2_eq weight input, dotRows_eq q8_0I8BlockDotprod_eq weight input,
      dotRows_eq q8_0I8BlockNeonMul_eq weight input⟩

end Rows

end SimdDot

end CamelidEnterprise

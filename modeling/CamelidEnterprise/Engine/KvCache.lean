import CamelidEnterprise.Engine.ModelConfig
import CamelidEnterprise.Engine.Tensor

/-!
# Camelid Enterprise — the key/value cache

`crates/engine-core/src/forward/kv_cache.rs`: the rotated keys and raw values of
every decoded position, rounded through half precision, in two flat buffers that
grow on demand. Plain products are those of a build with overflow checks: the size
of a position faults where it leaves the word. A release build wraps there instead;
where the size does not fault it is the same in both (`positionStride_build`).

Key results:

* `ensurePositionCapacity_eq` — growth is decided by `reserve`, and changes nothing
  where it is refused;
* `entry_stored_self`, `entry_stored_of_ne` — a row that is read was stored last for
  its own layer, position and head;
* `entry_grownTo` — growth keeps every row.
-/

namespace CamelidEnterprise

open Foundation

-- ---------------------------------------------------------------------------
-- Half precision
-- ---------------------------------------------------------------------------

/-- `f32_to_f16_kv` -/
def f32ToF16Kv (value : F32) : UInt16 :=
  let bits := value.bits
  let sign := (bits >>> 16).toUInt16 &&& 0x8000
  let exp : Int := ((bits >>> 23) &&& 0xff).toNat
  let mant := bits &&& 0x007fffff
  let halfExp := exp - 127 + 15
  if exp = 0xff then sign ||| (if mant = 0 then 0x7c00 else 0x7e00)
  else if halfExp ≥ 0x1f then sign ||| 0x7c00
  else if halfExp < -10 then sign
  else if halfExp ≤ 0 then
    let mantissa := mant ||| 0x00800000
    let shift := UInt32.ofNat (14 - halfExp).toNat
    let halfMant := (mantissa >>> shift).toUInt16
    let roundBit : UInt32 := 1 <<< (shift - 1)
    let up := mantissa &&& roundBit ≠ 0 ∧ (mantissa &&& (roundBit - 1) ≠ 0 ∨ halfMant &&& 1 ≠ 0)
    sign ||| (if up then halfMant + 1 else halfMant)
  else
    let half := sign ||| (UInt16.ofNat halfExp.toNat <<< 10) ||| (mant >>> 13).toUInt16
    let up := mant &&& 0x00001000 ≠ 0 ∧ (mant &&& 0x00000fff ≠ 0 ∨ half &&& 1 ≠ 0)
    if up then half + 1 else half

/-- `f16_to_f32_kv` -/
def f16ToF32Kv (bits : UInt16) : F32 :=
  let sign := (bits &&& 0x8000).toUInt32 <<< 16
  let exp := (bits &&& 0x7c00) >>> 10
  let frac := (bits &&& 0x03ff).toUInt32
  let out : UInt32 :=
    if exp = 0 then
      if frac = 0 then sign
      else
        let (mant, e) := normalizeHalf 10 frac (-14)
        let exp32 := UInt32.ofNat (e + 127).toNat
        sign ||| (exp32 <<< 23) ||| ((mant &&& 0x03ff) <<< 13)
    else if exp = 0x1f then
      if frac = 0 then sign ||| 0x7f800000
      else sign ||| (0x7f800000 : UInt32) ||| (0x00400000 : UInt32) ||| (frac <<< 13)
    else
      let exp32 := exp.toUInt32 + 112
      sign ||| (exp32 <<< 23) ||| (frac <<< 13)
  ⟨out⟩

/-- `kv_round` -/
def kvRound (value : F32) : F32 := f16ToF32Kv (f32ToF16Kv value)

example : kvRound ⟨0x3f800001⟩ = 1 ∧ kvRound ⟨0xff7fffff⟩ = F32.negInfinity := by decide +kernel

-- ---------------------------------------------------------------------------
-- The cache
-- ---------------------------------------------------------------------------

/-- `LlamaKvCachePlan` -/
structure LlamaKvCachePlan where
  maxSequenceLength : Nat
  layerCount : Nat
  kvHeadCount : Nat
  headDim : Nat
deriving DecidableEq, Repr

/-- `LlamaKvCachePlan::from_config` -/
def LlamaKvCachePlan.fromConfig (config : LlamaModelConfig) : EngineResult LlamaKvCachePlan := do
  let dims ← DenseLlamaDims.fromConfig config
  .ok
    { maxSequenceLength := config.contextLength
      layerCount := dims.blockCount
      kvHeadCount := dims.attentionHeadCountKv
      headDim := dims.headDim }

/-- `LlamaKvCache` -/
structure LlamaKvCache where
  plan : LlamaKvCachePlan
  keys : List F32
  values : List F32
  allocatedSequenceLength : Nat
  position : Nat
deriving DecidableEq

/-- `GROW_CHUNK` -/
def growChunk : Nat := 256

/-- `isize::MAX` -/
def isizeMax : Nat := 2 ^ 63 - 1

/-- The buffer after `Vec::resize`, which panics when its bytes outgrow an `isize`. -/
def resizeVec (xs : List F32) (len : Nat) : EngineResult (List F32) :=
  if 4 * len > isizeMax then .fault .panic else .ok (Rows.resize xs len 0)

/-- A slice of `headDim` slots, overwritten with the rounded elements of a row. -/
def storeRow (buffer : List F32) (dst headDim : Nat) (row : List F32) :
    EngineResult (List F32) := do
  let _ ← Outcome.orPanic (Rows.slice buffer dst headDim)
  .ok (Rows.splice buffer dst ((row.take headDim).map kvRound))

/-- `position_stride`, plain products -/
def LlamaKvCachePlan.positionStrideIn (plan : LlamaKvCachePlan) (build : Build) :
    EngineResult Nat := do
  let rows ← build.mul plan.layerCount plan.kvHeadCount
  build.mul rows plan.headDim

/-- `position_stride` of a build with overflow checks. -/
def LlamaKvCachePlan.positionStride (plan : LlamaKvCachePlan) : EngineResult Nat :=
  plan.positionStrideIn .debug

/-- A stride that does not fault is that of every build. -/
theorem LlamaKvCachePlan.positionStride_build {plan : LlamaKvCachePlan} {n : Nat}
    (h : plan.positionStride = .ok n) (build : Build) : plan.positionStrideIn build = .ok n := by
  obtain ⟨rows, hrows, h⟩ := Outcome.bind_eq_ok.mp h
  exact Outcome.bind_eq_ok.mpr ⟨rows, Build.mul_of_plainMul hrows build,
    Build.mul_of_plainMul h build⟩

namespace LlamaKvCache

/-- `new` -/
def new (plan : LlamaKvCachePlan) : EngineResult LlamaKvCache :=
  if plan.layerCount = 0 ∨ plan.kvHeadCount = 0 ∨ plan.headDim = 0 then
    .err (.InvalidModelMetadata
      "KV cache plan requires non-zero layer, kv-head, and head-dim counts")
  else .ok ⟨plan, [], [], 0, 0⟩

/-- `offset` -/
def offset (kv : LlamaKvCache) (layerIdx position kvHead : Nat) : Nat :=
  ((position * kv.plan.layerCount + layerIdx) * kv.plan.kvHeadCount + kvHead) * kv.plan.headDim

/-- The positions held after a growth that `required` of them call for. -/
def growthTarget (kv : LlamaKvCache) (required : Nat) : Nat :=
  min (max (max required (min (kv.allocatedSequenceLength * 2) (2 ^ 64 - 1))) growChunk)
    kv.plan.maxSequenceLength

/-- `ensure_position_capacity` -/
def ensurePositionCapacity (required : Nat) : Effect LlamaKvCache EngineError Unit := do
  let kv ← .get
  if required > kv.plan.maxSequenceLength then
    .throw (.ShapeMismatch
      s!"KV cache position {required} exceeds context length {kv.plan.maxSequenceLength}")
  else if required ≤ kv.allocatedSequenceLength then pure ()
  else do
    let target := kv.growthTarget required
    let stride ← .lift kv.plan.positionStride
    let elements ← .lift (Outcome.okOr (.ShapeMismatch "KV cache element count overflow")
      (checkedMul target stride))
    let keys ← .lift (resizeVec kv.keys elements)
    .modify ({ · with keys })
    let values ← .lift (resizeVec kv.values elements)
    .modify ({ · with values, allocatedSequenceLength := target })

/-- `store_kv_head_row` -/
def storeKvHeadRow (layerIdx position kvHead : Nat) (keyRow valueRow : List F32) :
    Effect LlamaKvCache EngineError Unit := do
  let kv ← .get
  let dst := kv.offset layerIdx position kvHead
  let keys ← .lift (storeRow kv.keys dst kv.plan.headDim keyRow)
  .modify ({ · with keys })
  let values ← .lift (storeRow kv.values dst kv.plan.headDim valueRow)
  .modify ({ · with values })

/-- `key_row` -/
def keyRow (kv : LlamaKvCache) (layerIdx position kvHead : Nat) : EngineResult (List F32) :=
  Outcome.orPanic (Rows.slice kv.keys (kv.offset layerIdx position kvHead) kv.plan.headDim)

/-- `value_row` -/
def valueRow (kv : LlamaKvCache) (layerIdx position kvHead : Nat) : EngineResult (List F32) :=
  Outcome.orPanic (Rows.slice kv.values (kv.offset layerIdx position kvHead) kv.plan.headDim)

/-- `advance_position` -/
def advancePosition : Effect LlamaKvCache EngineError Unit :=
  .modify fun kv => { kv with position := kv.position + 1 }

-- ---------------------------------------------------------------------------
-- Sizes
-- ---------------------------------------------------------------------------

/-- The elements of one position. -/
def stride (kv : LlamaKvCache) : Nat :=
  kv.plan.layerCount * kv.plan.kvHeadCount * kv.plan.headDim

/-- The buffers hold what the cache says it has allocated. -/
structure Fits (kv : LlamaKvCache) : Prop where
  keys_length : kv.keys.length = kv.allocatedSequenceLength * kv.stride
  values_length : kv.values.length = kv.allocatedSequenceLength * kv.stride
  position_le : kv.position ≤ kv.allocatedSequenceLength
  allocated_le : kv.allocatedSequenceLength ≤ kv.plan.maxSequenceLength

/-- The buffers hold what the cache says it has allocated, wherever it writes next. -/
structure Buffered (kv : LlamaKvCache) : Prop where
  keys_length : kv.keys.length = kv.allocatedSequenceLength * kv.stride
  values_length : kv.values.length = kv.allocatedSequenceLength * kv.stride
  allocated_le : kv.allocatedSequenceLength ≤ kv.plan.maxSequenceLength

theorem Fits.buffered {kv : LlamaKvCache} (h : kv.Fits) : kv.Buffered :=
  ⟨h.keys_length, h.values_length, h.allocated_le⟩

theorem new_fits {plan : LlamaKvCachePlan} {kv : LlamaKvCache} (h : new plan = .ok kv) :
    kv = ⟨plan, [], [], 0, 0⟩ ∧ kv.Fits := by
  unfold new at h
  split at h
  · exact absurd h (by simp)
  · obtain rfl := Outcome.ok.inj h
    exact ⟨rfl, by simp, by simp, Nat.le_refl 0, Nat.zero_le _⟩

/-- The row of a layer, position and head lies before the end of the positions. -/
theorem offset_le (kv : LlamaKvCache) {layerIdx position kvHead n : Nat}
    (hlayer : layerIdx < kv.plan.layerCount) (hposition : position < n)
    (hhead : kvHead < kv.plan.kvHeadCount) :
    kv.offset layerIdx position kvHead + kv.plan.headDim ≤ n * kv.stride := by
  have hrow : (position * kv.plan.layerCount + layerIdx) * kv.plan.kvHeadCount + kvHead <
      n * kv.plan.layerCount * kv.plan.kvHeadCount :=
    Rows.place_lt (Rows.place_lt hposition hlayer) hhead
  have hle := Rows.row_le (w := kv.plan.headDim) hrow
  have hlen : n * kv.plan.layerCount * kv.plan.kvHeadCount * kv.plan.headDim = n * kv.stride := by
    unfold stride
    ring
  rw [← hlen]
  exact hle

/-- It starts behind the positions before its own. -/
theorem le_offset (kv : LlamaKvCache) {position n : Nat} (layerIdx kvHead : Nat)
    (hposition : n ≤ position) : n * kv.stride ≤ kv.offset layerIdx position kvHead := by
  have hfirst : position * kv.stride ≤ kv.offset layerIdx position kvHead := by
    have hsplit : kv.offset layerIdx position kvHead =
        position * kv.stride + (layerIdx * kv.plan.kvHeadCount + kvHead) * kv.plan.headDim := by
      unfold offset stride
      ring
    omega
  exact Nat.le_trans (Nat.mul_le_mul_right _ hposition) hfirst

/-- The row of a layer, position and head lies in the buffers. -/
theorem Buffered.row_le {kv : LlamaKvCache} (h : kv.Buffered) {layerIdx position kvHead : Nat}
    (hlayer : layerIdx < kv.plan.layerCount)
    (hposition : position < kv.allocatedSequenceLength) (hhead : kvHead < kv.plan.kvHeadCount) :
    kv.offset layerIdx position kvHead + kv.plan.headDim ≤ kv.keys.length ∧
      kv.offset layerIdx position kvHead + kv.plan.headDim ≤ kv.values.length := by
  rw [h.keys_length, h.values_length]
  exact ⟨kv.offset_le hlayer hposition hhead, kv.offset_le hlayer hposition hhead⟩

-- ---------------------------------------------------------------------------
-- Growth
-- ---------------------------------------------------------------------------

/-- How many positions are held once `required` are, or why they cannot be. -/
def reserve (kv : LlamaKvCache) (required : Nat) : EngineResult Nat :=
  if required > kv.plan.maxSequenceLength then
    .err (.ShapeMismatch
      s!"KV cache position {required} exceeds context length {kv.plan.maxSequenceLength}")
  else if required ≤ kv.allocatedSequenceLength then .ok kv.allocatedSequenceLength
  else do
    let stride ← kv.plan.positionStride
    let elements ← Outcome.okOr (.ShapeMismatch "KV cache element count overflow")
      (checkedMul (kv.growthTarget required) stride)
    if 4 * elements > isizeMax then .fault .panic else .ok (kv.growthTarget required)

/-- The cache with this many positions held. -/
def grownTo (kv : LlamaKvCache) (target : Nat) : LlamaKvCache :=
  { kv with
    keys := Rows.resize kv.keys (target * kv.stride) 0
    values := Rows.resize kv.values (target * kv.stride) 0
    allocatedSequenceLength := target }

@[simp] theorem grownTo_plan (kv : LlamaKvCache) (target : Nat) :
    (kv.grownTo target).plan = kv.plan := rfl

@[simp] theorem grownTo_position (kv : LlamaKvCache) (target : Nat) :
    (kv.grownTo target).position = kv.position := rfl

@[simp] theorem grownTo_allocated (kv : LlamaKvCache) (target : Nat) :
    (kv.grownTo target).allocatedSequenceLength = target := rfl

theorem positionStride_eq_ok {plan : LlamaKvCachePlan} {n : Nat}
    (h : plan.positionStride = .ok n) :
    n = plan.layerCount * plan.kvHeadCount * plan.headDim := by
  obtain ⟨rows, hrows, h⟩ := Outcome.bind_eq_ok.mp h
  rw [(plainMul_eq_ok.mp h).1, (plainMul_eq_ok.mp hrows).1]

theorem Buffered.grownTo_self {kv : LlamaKvCache} (h : kv.Buffered) :
    kv.grownTo kv.allocatedSequenceLength = kv := by
  have hself : ∀ xs : List F32, xs.length = kv.allocatedSequenceLength * kv.stride →
      Rows.resize xs (kv.allocatedSequenceLength * kv.stride) 0 = xs := by
    intro xs hxs
    rw [← hxs]
    simp [Rows.resize]
  unfold grownTo
  rw [hself _ h.keys_length, hself _ h.values_length]

/-- Growth is what `reserve` decides, and nothing where it is refused. -/
theorem ensurePositionCapacity_eq {kv : LlamaKvCache} (hfits : kv.Buffered) (required : Nat) :
    ensurePositionCapacity required kv =
      match kv.reserve required with
      | .ok target => (.ok (), kv.grownTo target)
      | .err e => (.err e, kv)
      | .fault k => (.fault k, kv) := by
  unfold ensurePositionCapacity reserve
  show (if required > kv.plan.maxSequenceLength then _ else _ : Effect LlamaKvCache EngineError Unit)
    kv = _
  by_cases hmax : required > kv.plan.maxSequenceLength
  · rw [if_pos hmax, if_pos hmax]
    rfl
  rw [if_neg hmax, if_neg hmax]
  by_cases halloc : required ≤ kv.allocatedSequenceLength
  · rw [if_pos halloc, if_pos halloc]
    show (Outcome.ok (), kv) = (Outcome.ok (), kv.grownTo kv.allocatedSequenceLength)
    rw [hfits.grownTo_self]
  rw [if_neg halloc, if_neg halloc]
  rw [Effect.run_bind, Effect.run_lift]
  rcases hstride : kv.plan.positionStride with stride | e | k
  · have hmul := positionStride_eq_ok hstride
    dsimp only
    rw [Effect.run_bind, Effect.run_lift, Outcome.ok_bind]
    rcases helements : Outcome.okOr (EngineError.ShapeMismatch "KV cache element count overflow")
      (checkedMul (kv.growthTarget required) stride) with elements | e | k
    · have hcount := (checkedMul_eq_some.mp (Outcome.okOr_eq_ok.mp helements)).1
      dsimp only
      rw [Effect.run_bind, Effect.run_lift, Outcome.ok_bind]
      unfold resizeVec
      by_cases hmem : 4 * elements > isizeMax
      · rw [if_pos hmem, if_pos hmem, if_pos hmem]
      · rw [if_neg hmem, if_neg hmem, if_neg hmem]
        have hgrown : elements = kv.growthTarget required * kv.stride := by
          rw [hcount, hmul]
          rfl
        show (Outcome.ok (), _) = (Outcome.ok (), kv.grownTo (kv.growthTarget required))
        unfold grownTo
        rw [← hgrown]
    · rfl
    · rfl
  · rfl
  · rfl

theorem reserve_eq_ok {kv : LlamaKvCache} (hfits : kv.Buffered) {required target : Nat}
    (h : kv.reserve required = .ok target) :
    required ≤ target ∧ kv.allocatedSequenceLength ≤ target ∧
      target ≤ kv.plan.maxSequenceLength := by
  have hle := hfits.allocated_le
  unfold reserve at h
  by_cases hmax : required > kv.plan.maxSequenceLength
  · rw [if_pos hmax] at h
    exact absurd h (by simp)
  rw [if_neg hmax] at h
  by_cases halloc : required ≤ kv.allocatedSequenceLength
  · rw [if_pos halloc] at h
    obtain rfl := Outcome.ok.inj h
    exact ⟨halloc, Nat.le_refl _, hle⟩
  rw [if_neg halloc] at h
  obtain ⟨stride, -, h⟩ := Outcome.bind_eq_ok.mp h
  obtain ⟨elements, -, h⟩ := Outcome.bind_eq_ok.mp h
  split at h
  · exact absurd h (by simp)
  · obtain rfl := Outcome.ok.inj h
    unfold growthTarget
    omega

/-- What is decided once more after a growth is the same. -/
theorem reserve_grownTo {kv : LlamaKvCache} (hfits : kv.Buffered) {required target : Nat}
    (h : kv.reserve required = .ok target) : (kv.grownTo target).reserve required = .ok target := by
  obtain ⟨hrequired, -, hmax⟩ := reserve_eq_ok hfits h
  unfold reserve
  rw [if_neg (by rw [grownTo_plan]; omega), if_pos (by rw [grownTo_allocated]; exact hrequired)]
  rfl

theorem Buffered.grownTo {kv : LlamaKvCache} {target : Nat}
    (hmax : target ≤ kv.plan.maxSequenceLength) : (kv.grownTo target).Buffered where
  keys_length := Rows.length_resize _ _ _
  values_length := Rows.length_resize _ _ _
  allocated_le := hmax

theorem Fits.grownTo {kv : LlamaKvCache} (h : kv.Fits) {target : Nat}
    (hle : kv.allocatedSequenceLength ≤ target) (hmax : target ≤ kv.plan.maxSequenceLength) :
    (kv.grownTo target).Fits where
  keys_length := (Buffered.grownTo hmax).keys_length
  values_length := (Buffered.grownTo hmax).values_length
  position_le := Nat.le_trans h.position_le hle
  allocated_le := hmax

-- ---------------------------------------------------------------------------
-- Rows
-- ---------------------------------------------------------------------------

/-- The key and value rows of a layer, position and head. -/
def entry (kv : LlamaKvCache) (layerIdx position kvHead : Nat) :
    Option (List F32 × List F32) := do
  let key ← Rows.slice kv.keys (kv.offset layerIdx position kvHead) kv.plan.headDim
  let value ← Rows.slice kv.values (kv.offset layerIdx position kvHead) kv.plan.headDim
  some (key, value)

theorem entry_eq_some {kv : LlamaKvCache} {layerIdx position kvHead : Nat}
    {row : List F32 × List F32} :
    kv.entry layerIdx position kvHead = some row ↔
      kv.keyRow layerIdx position kvHead = .ok row.1 ∧
        kv.valueRow layerIdx position kvHead = .ok row.2 := by
  unfold entry keyRow valueRow
  rw [Outcome.orPanic_eq_ok, Outcome.orPanic_eq_ok]
  constructor
  · intro h
    obtain ⟨key, hkey, h⟩ := Option.bind_eq_some_iff.mp h
    obtain ⟨value, hvalue, h⟩ := Option.bind_eq_some_iff.mp h
    obtain rfl := Option.some.inj h
    exact ⟨hkey, hvalue⟩
  · rintro ⟨hkey, hvalue⟩
    rw [hkey, hvalue]
    rfl

/-- Growth keeps every row. -/
theorem entry_grownTo {kv : LlamaKvCache} (hfits : kv.Buffered) {target : Nat}
    (hle : kv.allocatedSequenceLength ≤ target) {layerIdx position kvHead : Nat}
    (hlayer : layerIdx < kv.plan.layerCount)
    (hposition : position < kv.allocatedSequenceLength) (hhead : kvHead < kv.plan.kvHeadCount) :
    (kv.grownTo target).entry layerIdx position kvHead = kv.entry layerIdx position kvHead := by
  obtain ⟨hkeys, hvalues⟩ := hfits.row_le hlayer hposition hhead
  have hmul : kv.allocatedSequenceLength * kv.stride ≤ target * kv.stride :=
    Nat.mul_le_mul_right _ hle
  unfold entry
  show (do
      let key ← Rows.slice (Rows.resize kv.keys (target * kv.stride) 0)
        (kv.offset layerIdx position kvHead) kv.plan.headDim
      let value ← Rows.slice (Rows.resize kv.values (target * kv.stride) 0)
        (kv.offset layerIdx position kvHead) kv.plan.headDim
      some (key, value)) = _
  rw [Rows.slice_resize _ (by rw [hfits.keys_length]; exact hmul) hkeys,
    Rows.slice_resize _ (by rw [hfits.values_length]; exact hmul) hvalues]

/-- The cache with a rounded row in its place. -/
def stored (kv : LlamaKvCache) (layerIdx position kvHead : Nat) (row : List F32 × List F32) :
    LlamaKvCache :=
  { kv with
    keys := Rows.splice kv.keys (kv.offset layerIdx position kvHead) (row.1.map kvRound)
    values := Rows.splice kv.values (kv.offset layerIdx position kvHead) (row.2.map kvRound) }

/-- A row of the width of the cache. -/
def Wide (kv : LlamaKvCache) (row : List F32 × List F32) : Prop :=
  row.1.length = kv.plan.headDim ∧ row.2.length = kv.plan.headDim

section Stored

variable {kv : LlamaKvCache} (hfits : kv.Buffered) {layerIdx position kvHead : Nat}
  (hlayer : layerIdx < kv.plan.layerCount) (hposition : position < kv.allocatedSequenceLength)
  (hhead : kvHead < kv.plan.kvHeadCount) {row : List F32 × List F32} (hwide : kv.Wide row)

include hfits hlayer hposition hhead hwide

theorem storeKvHeadRow_eq :
    storeKvHeadRow layerIdx position kvHead row.1 row.2 kv =
      (.ok (), kv.stored layerIdx position kvHead row) := by
  obtain ⟨hkeys, hvalues⟩ := hfits.row_le hlayer hposition hhead
  have hstore : ∀ (buffer elements : List F32),
      kv.offset layerIdx position kvHead + kv.plan.headDim ≤ buffer.length →
      elements.length = kv.plan.headDim →
      storeRow buffer (kv.offset layerIdx position kvHead) kv.plan.headDim elements =
        .ok (Rows.splice buffer (kv.offset layerIdx position kvHead) (elements.map kvRound)) := by
    intro buffer elements hbuffer helements
    have htake : elements.take kv.plan.headDim = elements := List.take_of_length_le (by omega)
    unfold storeRow
    rw [Rows.slice_of_le hbuffer, htake]
    rfl
  unfold storeKvHeadRow
  show (do
      let keys ← .lift (storeRow kv.keys (kv.offset layerIdx position kvHead) kv.plan.headDim row.1)
      .modify ({ · with keys })
      let values ← .lift
        (storeRow kv.values (kv.offset layerIdx position kvHead) kv.plan.headDim row.2)
      .modify ({ · with values }) : Effect LlamaKvCache EngineError Unit) kv = _
  rw [hstore _ _ hkeys hwide.1, hstore _ _ hvalues hwide.2]
  rfl

theorem Buffered.stored : (kv.stored layerIdx position kvHead row).Buffered := by
  obtain ⟨hkeys, hvalues⟩ := hfits.row_le hlayer hposition hhead
  refine ⟨?_, ?_, hfits.allocated_le⟩
  · show (Rows.splice _ _ _).length = _
    rw [Rows.length_splice (by rw [List.length_map, hwide.1]; exact hkeys)]
    exact hfits.keys_length
  · show (Rows.splice _ _ _).length = _
    rw [Rows.length_splice (by rw [List.length_map, hwide.2]; exact hvalues)]
    exact hfits.values_length

omit hfits in
theorem Fits.stored (h : kv.Fits) : (kv.stored layerIdx position kvHead row).Fits where
  keys_length := (h.buffered.stored hlayer hposition hhead hwide).keys_length
  values_length := (h.buffered.stored hlayer hposition hhead hwide).values_length
  position_le := h.position_le
  allocated_le := h.allocated_le

/-- What is read back from where it was stored. -/
theorem entry_stored_self :
    (kv.stored layerIdx position kvHead row).entry layerIdx position kvHead =
      some (row.1.map kvRound, row.2.map kvRound) := by
  obtain ⟨hkeys, hvalues⟩ := hfits.row_le hlayer hposition hhead
  have hself : ∀ (buffer elements : List F32),
      kv.offset layerIdx position kvHead + kv.plan.headDim ≤ buffer.length →
      elements.length = kv.plan.headDim →
      Rows.slice (Rows.splice buffer (kv.offset layerIdx position kvHead) (elements.map kvRound))
        (kv.offset layerIdx position kvHead) kv.plan.headDim = some (elements.map kvRound) := by
    intro buffer elements hbuffer helements
    exact Rows.row_splice_self (by rw [List.length_map, helements]) hbuffer
  unfold entry
  show (do
      let key ← Rows.slice (Rows.splice kv.keys (kv.offset layerIdx position kvHead) _)
        (kv.offset layerIdx position kvHead) kv.plan.headDim
      let value ← Rows.slice (Rows.splice kv.values (kv.offset layerIdx position kvHead) _)
        (kv.offset layerIdx position kvHead) kv.plan.headDim
      some (key, value)) = _
  rw [hself _ _ hkeys hwide.1, hself _ _ hvalues hwide.2]
  rfl

/-- A store leaves every other row. -/
theorem entry_stored_of_ne {layerIdx' position' kvHead' : Nat}
    (hlayer' : layerIdx' < kv.plan.layerCount) (hhead' : kvHead' < kv.plan.kvHeadCount)
    (hne : (layerIdx', position', kvHead') ≠ (layerIdx, position, kvHead)) :
    (kv.stored layerIdx position kvHead row).entry layerIdx' position' kvHead' =
      kv.entry layerIdx' position' kvHead' := by
  obtain ⟨hkeys, hvalues⟩ := hfits.row_le hlayer hposition hhead
  have hplace : (position' * kv.plan.layerCount + layerIdx') * kv.plan.kvHeadCount + kvHead' ≠
      (position * kv.plan.layerCount + layerIdx) * kv.plan.kvHeadCount + kvHead := by
    intro h
    obtain ⟨houter, hsame⟩ := (Rows.place_inj hhead' hhead).mp h
    obtain ⟨hsame', hsame''⟩ := (Rows.place_inj hlayer' hlayer).mp houter
    subst hsame hsame' hsame''
    exact hne rfl
  have hother : ∀ (buffer elements : List F32),
      kv.offset layerIdx position kvHead + kv.plan.headDim ≤ buffer.length →
      elements.length = kv.plan.headDim →
      Rows.slice (Rows.splice buffer (kv.offset layerIdx position kvHead) (elements.map kvRound))
          (kv.offset layerIdx' position' kvHead') kv.plan.headDim =
        Rows.slice buffer (kv.offset layerIdx' position' kvHead') kv.plan.headDim := by
    intro buffer elements hbuffer helements
    exact Rows.row_splice_of_ne (by rw [List.length_map, helements]) hbuffer hplace
  unfold entry
  show (do
      let key ← Rows.slice (Rows.splice kv.keys (kv.offset layerIdx position kvHead) _)
        (kv.offset layerIdx' position' kvHead') kv.plan.headDim
      let value ← Rows.slice (Rows.splice kv.values (kv.offset layerIdx position kvHead) _)
        (kv.offset layerIdx' position' kvHead') kv.plan.headDim
      some (key, value)) = _
  rw [hother _ _ hkeys hwide.1, hother _ _ hvalues hwide.2]

end Stored

end LlamaKvCache

end CamelidEnterprise

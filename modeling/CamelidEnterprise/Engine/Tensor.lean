import CamelidEnterprise.Engine.Blocks
import CamelidEnterprise.Foundation.Rows

/-!
# Camelid Enterprise — tensors and their kernels

`crates/engine-core/src/tensor/`: the CPU tensor, the Q8_0 quantizer and row dot,
and the kernels the dense decoder is built from. Indices and slices of the source
are read with `Outcome.orPanic`, so that a kernel handed buffers of the wrong size
faults where the source panics.

What is assumed, and where the representation is coarser than the source:

* a `usize` is a natural number, with the checks of the products that size a buffer,
  and a plain product faults where it leaves the word, as in a build with overflow checks;
* a buffer that is no longer than one that exists is allocated without a check, and the
  gather of an embedding panics where its bytes outgrow an `isize` (`withCapacity`);
* the arithmetic of `f32` is the structure `FloatOps`, in the order of the source;
* the kernels of the other projections (`Q8Projection`) return what the portable one does.
-/

namespace CamelidEnterprise

open Foundation Gguf

/-- A product of sizes, absent where it leaves the word. -/
def checkedMul (a b : Nat) : Option Nat := if a * b < 2 ^ 64 then some (a * b) else none

/-- A plain product of sizes. -/
def plainMul (a b : Nat) : EngineResult Nat :=
  if a * b < 2 ^ 64 then .ok (a * b) else .fault .overflow

theorem checkedMul_eq_some {a b c : Nat} : checkedMul a b = some c ↔ c = a * b ∧ a * b < 2 ^ 64 := by
  unfold checkedMul
  split
  · rename_i h
    simp only [h, and_true, Option.some.injEq]
    exact eq_comm
  · rename_i h
    simp only [h, and_false, reduceCtorEq]

theorem plainMul_eq_ok {a b c : Nat} : plainMul a b = .ok c ↔ c = a * b ∧ a * b < 2 ^ 64 := by
  unfold plainMul
  split
  · rename_i h
    simp only [h, and_true, Outcome.ok.injEq]
    exact eq_comm
  · rename_i h
    simp only [h, and_false, reduceCtorEq]

/-- A profile of the build: `dev` checks plain arithmetic, and `release` does not. -/
inductive Build
  | debug
  | release
deriving DecidableEq, Repr

/-- A plain product of sizes. -/
def Build.mul : Build → Nat → Nat → EngineResult Nat
  | .debug, a, b => plainMul a b
  | .release, a, b => .ok (a * b % 2 ^ 64)

/-- A product that stays in the word is the same in every build. -/
theorem Build.mul_of_plainMul {a b c : Nat} (h : plainMul a b = .ok c) (build : Build) :
    build.mul a b = .ok c := by
  cases build with
  | debug => exact h
  | release =>
    obtain ⟨rfl, hword⟩ := plainMul_eq_ok.mp h
    exact congrArg Outcome.ok (Nat.mod_eq_of_lt hword)

/-- `Vec::with_capacity` for `count` elements of `width` bytes. -/
def withCapacity (count width : Nat) : EngineResult Unit :=
  if count * width < 2 ^ 63 then .ok () else .fault .panic

theorem withCapacity_eq_ok {count width : Nat} :
    withCapacity count width = .ok () ↔ count * width < 2 ^ 63 := by
  unfold withCapacity
  split
  · rename_i h
    simp only [h]
  · rename_i h
    simp only [h, reduceCtorEq]

/-- `{dims:?}` -/
def debugDims (dims : List Nat) : String := toString dims

-- ---------------------------------------------------------------------------
-- Q8_0 blocks
-- ---------------------------------------------------------------------------

/-- `Q8_0Block` -/
structure Q8_0Block where
  scale : F32
  quants : Vector Int8 32
deriving DecidableEq

/-- `block.scale * f32::from(*quant)` for every quant of a block. -/
def Q8_0Block.dequantize [FloatOps] (block : Q8_0Block) : List F32 :=
  block.quants.toList.map fun quant => block.scale * F32.ofInt quant.toInt

theorem Q8_0Block.length_dequantize [FloatOps] (block : Q8_0Block) :
    block.dequantize.length = 32 := by
  simp [Q8_0Block.dequantize]

/-- The chunks of `size` elements of a list; a trailing partial one is dropped. -/
def chunksExact {α : Type} (size : Nat) (xs : List α) : List (List α) :=
  (List.range (xs.length / size)).map fun i => (xs.drop (i * size)).take size

/-- `quantize_q8_0_block`, of a chunk of 32 values. -/
def quantizeQ8_0Block [FloatOps] (block : List F32) : Q8_0Block :=
  let maxAbs := block.foldl (fun acc value => FloatOps.max acc value.abs) 0
  let unroundedScale := maxAbs / 127
  let invScale := if unroundedScale.eq 0 then 0 else 1 / unroundedScale
  { scale := f16BitsToF32 (f32ToF16Bits unroundedScale)
    quants := Vector.ofFn fun i =>
      match block[i.val]? with
      | some value => ((FloatOps.round (value * invScale)).clamp (-128) 127).toI8
      | none => 0 }

/-- `quantize_q8_0_blocks` -/
def quantizeQ8_0Blocks [FloatOps] (input : List F32) : List Q8_0Block :=
  (chunksExact 32 input).map quantizeQ8_0Block

/-- `block_int_dot`; no sum of 32 products of bytes leaves an `i32`. -/
def blockIntDot (weight input : Vector Int8 32) : Int :=
  (List.zipWith (fun w x => w.toInt * x.toInt) weight.toList input.toList).sum

/-- `q8_0_dot_rows` -/
def q8_0DotRows [FloatOps] (weight input : List Q8_0Block) : F32 :=
  F32.sum (List.zipWith (fun w x => F32.ofInt (blockIntDot w.quants x.quants) * w.scale * x.scale)
    weight input)

/-- `q8_0_project_rows`, into an output of `rows` elements. -/
def q8_0ProjectRows [FloatOps] (weightBlocks : List Q8_0Block) (blocksPerRow : Nat)
    (inputBlocks : List Q8_0Block) (rows : Nat) : EngineResult (List F32) :=
  (List.range rows).mapM fun o => do
    let row ← Outcome.orPanic (Rows.row weightBlocks blocksPerRow o)
    .ok (q8_0DotRows row inputBlocks)

/-- `Q8Projection`: a kernel that agrees with the portable one wherever the weight
has as many rows as the output. -/
structure Q8Projection [FloatOps] where
  run : List Q8_0Block → Nat → List Q8_0Block → Nat → EngineResult (List F32)
  agrees : ∀ weightBlocks blocksPerRow inputBlocks rows,
    weightBlocks.length = rows * blocksPerRow →
    run weightBlocks blocksPerRow inputBlocks rows =
      q8_0ProjectRows weightBlocks blocksPerRow inputBlocks rows

/-- The portable kernel. -/
def Q8Projection.portable [FloatOps] : Q8Projection :=
  ⟨q8_0ProjectRows, fun _ _ _ _ _ => rfl⟩

/-- A projection returns the dot of each row. -/
theorem Q8Projection.run_eq [FloatOps] (projection : Q8Projection)
    {weightBlocks : List Q8_0Block} {blocksPerRow : Nat} {rows : Nat}
    (h : weightBlocks.length = rows * blocksPerRow) (inputBlocks : List Q8_0Block) :
    projection.run weightBlocks blocksPerRow inputBlocks rows =
      .ok ((List.range rows).map fun o =>
        q8_0DotRows ((weightBlocks.drop (o * blocksPerRow)).take blocksPerRow) inputBlocks) := by
  rw [projection.agrees _ _ _ _ h]
  unfold q8_0ProjectRows
  rw [← Outcome.mapM_ok]
  refine Outcome.mapM_congr ?_
  intro o ho
  have hle : o * blocksPerRow + blocksPerRow ≤ weightBlocks.length := by
    rw [h]
    exact Rows.row_le (List.mem_range.mp ho)
  unfold Rows.row
  rw [Rows.slice_of_le hle]
  rfl

theorem Q8Projection.run_ok [FloatOps] (projection : Q8Projection)
    {weightBlocks : List Q8_0Block} {blocksPerRow : Nat} {rows : Nat}
    (h : weightBlocks.length = rows * blocksPerRow) (inputBlocks : List Q8_0Block) :
    ∃ out, projection.run weightBlocks blocksPerRow inputBlocks rows = .ok out ∧
      out.length = rows :=
  ⟨_, projection.run_eq h inputBlocks, by simp⟩

-- ---------------------------------------------------------------------------
-- The CPU tensor
-- ---------------------------------------------------------------------------

/-- The count of values in a block of a format. -/
def Gguf.TensorType.blockValues (ty : TensorType) : Nat :=
  match ty.layout with
  | some (values, _) => values.toNat
  | none => 0

/-- `CpuTensor`, with the storage the dense decoder reads. -/
structure CpuTensor where
  name : Str
  dims : List Nat
  sourceType : Option TensorType
  q8_0Blocks : Option (List Q8_0Block)
  q4KWireBytes : Option (List UInt8)
  q5KWireBytes : Option (List UInt8)
  q6KWireBytes : Option (List UInt8)
  data : List F32
deriving DecidableEq

/-- `TensorShape::element_count` -/
def elementCount (dims : List Nat) : EngineResult Nat :=
  dims.foldlM (fun acc dim =>
    Outcome.okOr (.InvalidTensorData "tensor element count overflow") (checkedMul acc dim)) 1

theorem elementCount_eq_ok {dims : List Nat} {n : Nat}
    (h : elementCount dims = .ok n) : n = dims.prod := by
  have hfold : ∀ (dims : List Nat) (acc n : Nat),
      dims.foldlM (fun acc dim =>
        (Outcome.okOr (.InvalidTensorData "tensor element count overflow") (checkedMul acc dim) :
          EngineResult Nat)) acc = .ok n → n = acc * dims.prod := by
    intro dims
    induction dims with
    | nil =>
      intro acc n h
      obtain rfl := Outcome.ok.inj h
      simp
    | cons dim dims ih =>
      intro acc n h
      rw [List.foldlM_cons] at h
      obtain ⟨product, hproduct, h⟩ := Outcome.bind_eq_ok.mp h
      have hmul := (checkedMul_eq_some.mp (Outcome.okOr_eq_ok.mp hproduct)).1
      rw [ih product n h, hmul, List.prod_cons, Nat.mul_assoc]
  have hprod := hfold dims 1 n h
  rwa [Nat.one_mul] at hprod

/-- `require_rank` -/
def requireRank (tensor : CpuTensor) (rank : Nat) (op : String) : EngineResult Unit :=
  if tensor.dims.length ≠ rank then
    .err (.ShapeMismatch s!"{op} expected rank {rank}, got shape {debugDims tensor.dims}")
  else .ok ()

/-- `dot_product` -/
def dotProduct [FloatOps] (lhs rhs : List F32) : EngineResult F32 :=
  if rhs.length < lhs.length then .fault .panic
  else .ok ((List.zip lhs rhs).foldl (fun sum pair => sum + pair.1 * pair.2) 0)

namespace CpuTensor

/-- `from_f32` -/
def fromF32 (name : Str) (dims : List Nat) (data : List F32) : EngineResult CpuTensor := do
  let expected ← elementCount dims
  if expected ≠ data.length then
    .err (.ShapeMismatch
      s!"tensor data length {data.length} does not match shape element count {expected}")
  else
    .ok
      { name, dims, sourceType := none, q8_0Blocks := none, q4KWireBytes := none
        q5KWireBytes := none, q6KWireBytes := none, data }

/-- `dim` -/
def dim (tensor : CpuTensor) (idx : Nat) : EngineResult Nat :=
  Outcome.okOr
    (.ShapeMismatch
      s!"tensor {display tensor.name} rank {tensor.dims.length} has no dimension {idx}")
    tensor.dims[idx]?

/-- `from_q8_0_blocks` -/
def fromQ8_0Blocks (name : Str) (dims : List Nat) (blocks : List Q8_0Block) :
    EngineResult CpuTensor := do
  let expectedElements ← elementCount dims
  if expectedElements % 32 ≠ 0 then
    .err (.InvalidTensorData
      s!"q8_0 block-backed tensor element count {expectedElements} is not block aligned")
  else
    let expectedBlocks := expectedElements / 32
    if blocks.length ≠ expectedBlocks then
      .err (.InvalidTensorData
        s!"q8_0 block-backed tensor expected {expectedBlocks} blocks, got {blocks.length}")
    else
      .ok
        { name, dims, sourceType := some .Q8_0, q8_0Blocks := some blocks, q4KWireBytes := none
          q5KWireBytes := none, q6KWireBytes := none, data := [] }

-- ---------------------------------------------------------------------------
-- Elementwise kernels and norms
-- ---------------------------------------------------------------------------

/-- The check and the loop shared by the elementwise kernels. -/
def zipElements (lhs rhs : CpuTensor) (name : Str) (f : F32 → F32 → F32) :
    EngineResult CpuTensor :=
  if lhs.dims ≠ rhs.dims then
    .err (.ShapeMismatch s!"shape mismatch: lhs {debugDims lhs.dims}, rhs {debugDims rhs.dims}")
  else do
    let out ← lhs.data.zipIdx.mapM fun (a, i) => do
      let b ← Outcome.orPanic rhs.data[i]?
      .ok (f a b)
    fromF32 name lhs.dims out

/-- `add` -/
def add [FloatOps] (lhs rhs : CpuTensor) (name : Str) : EngineResult CpuTensor :=
  zipElements lhs rhs name (· + ·)

/-- `silu_mul` -/
def siluMul [FloatOps] (lhs rhs : CpuTensor) (name : Str) : EngineResult CpuTensor :=
  zipElements lhs rhs name fun a b => a / (1 + FloatOps.exp (-a)) * b

/-- One row of `rms_norm_into`. -/
def rmsNormRow [FloatOps] (weight : List F32) (eps : F32) (values : List F32) :
    EngineResult (List F32) := do
  let meanSquare := F32.sum (values.map fun v => v * v) / F32.ofInt values.length
  let scale := 1 / FloatOps.sqrt (meanSquare + eps)
  values.zipIdx.mapM fun (v, col) => do
    let w ← Outcome.orPanic weight[col]?
    .ok (v * scale * w)

/-- `rms_norm` -/
def rmsNorm [FloatOps] (tensor weight : CpuTensor) (eps : F32) (name : Str) :
    EngineResult CpuTensor := do
  requireRank tensor 2 "rms_norm input"
  requireRank weight 1 "rms_norm weight"
  let rows ← tensor.dim 0
  let cols ← tensor.dim 1
  let weightLen ← weight.dim 0
  if weightLen ≠ cols then
    .err (.ShapeMismatch
      s!"rms_norm weight shape {debugDims weight.dims} does not match input shape {debugDims tensor.dims}")
  else do
    let out ← (List.range rows).mapM fun row => do
      let values ← Outcome.orPanic (Rows.row tensor.data cols row)
      rmsNormRow weight.data eps values
    -- what the rows do not cover of the output stays zero
    let rest := List.replicate (tensor.data.length - rows * cols) 0
    fromF32 name tensor.dims (out.flatten ++ rest)

/-- `per_head_rms_norm` -/
def perHeadRmsNorm [FloatOps] (tensor weight : CpuTensor) (headCount : Nat) (eps : F32)
    (name : Str) : EngineResult CpuTensor := do
  requireRank tensor 2 "per_head_rms_norm input"
  let rows ← tensor.dim 0
  let cols ← tensor.dim 1
  if headCount = 0 ∨ cols % headCount ≠ 0 then
    .err (.ShapeMismatch
      s!"per_head_rms_norm width {cols} is not divisible by head count {headCount}")
  else do
    let perHeadRows ← plainMul rows headCount
    let perHead ← fromF32 name [perHeadRows, cols / headCount] tensor.data
    let normed ← perHead.rmsNorm weight eps name
    fromF32 name [rows, cols] normed.data

-- ---------------------------------------------------------------------------
-- Embedding lookup
-- ---------------------------------------------------------------------------

/-- A token id, checked against the vocabulary. -/
def tokenIdx (tokenId vocab : Nat) : EngineResult Nat :=
  if tokenId < vocab then .ok tokenId
  else .err (.ShapeMismatch s!"token id {tokenId} out of range for vocab size {vocab}")

/-- `embedding_lookup_q8_0_block_backed` -/
def embeddingLookupQ8_0BlockBacked [FloatOps] (tensor : CpuTensor) (tokenIds : List Nat)
    (name : Str) (vocab width : Nat) (blocks : List Q8_0Block) : EngineResult CpuTensor := do
  if tensor.sourceType ≠ some .Q8_0 then
    .err (.ShapeMismatch
      s!"block-backed embedding {display tensor.name} must come from Q8_0 storage")
  else if width % 32 ≠ 0 then
    .err (.ShapeMismatch
      s!"block-backed q8_0 embedding width {width} is not divisible by 32")
  else do
    let blocksPerRow := width / 32
    let expectedBlocks ← Outcome.okOr
      (.ShapeMismatch "block-backed q8_0 embedding block count overflow")
      (checkedMul vocab blocksPerRow)
    if blocks.length ≠ expectedBlocks then
      .err (.ShapeMismatch
        s!"block-backed q8_0 embedding block count {blocks.length} does not match expected {expectedBlocks}")
    else do
      let outputLen ← Outcome.okOr
        (.ShapeMismatch "block-backed q8_0 embedding output element count overflow")
        (checkedMul tokenIds.length width)
      withCapacity outputLen 4
      let out ← tokenIds.mapM fun tokenId => do
        let token ← tokenIdx tokenId vocab
        let _ ← Outcome.okOr (.ShapeMismatch "block-backed q8_0 embedding row start overflow")
          (checkedMul token blocksPerRow)
        let row ← Outcome.orPanic (Rows.row blocks blocksPerRow token)
        .ok (row.flatMap Q8_0Block.dequantize)
      fromF32 name [tokenIds.length, width] out.flatten

/-- `embedding_lookup_kquant_wire`, with the bytes of a block and its decoder. -/
def embeddingLookupKquantWire (tokenIds : List Nat) (name : Str) (vocab width : Nat)
    (wire : List UInt8) (blockBytes : Nat) (dequantBlock : List UInt8 → EngineResult (List F32)) :
    EngineResult CpuTensor := do
  if width % 256 ≠ 0 then
    .err (.ShapeMismatch s!"K-quant embedding width {width} is not divisible by 256")
  else do
    let blocksPerRow := width / 256
    let rowBytes ← plainMul blocksPerRow blockBytes
    let expected ← Outcome.okOr (.ShapeMismatch "K-quant embedding byte count overflow")
      (checkedMul vocab rowBytes)
    if wire.length ≠ expected then
      .err (.ShapeMismatch
        s!"K-quant embedding wire bytes {wire.length} do not match expected {expected}")
    else do
      let outputLen ← plainMul tokenIds.length width
      withCapacity outputLen 4
      let out ← tokenIds.mapM fun tokenId => do
        let token ← tokenIdx tokenId vocab
        let row ← Outcome.orPanic (Rows.row wire rowBytes token)
        let blocks ← (List.range blocksPerRow).mapM fun b => do
          let block ← Outcome.orPanic (Rows.row row blockBytes b)
          dequantBlock block
        .ok blocks.flatten
      fromF32 name [tokenIds.length, width] out.flatten

/-- The gather from row-major data. -/
def embeddingLookupData (tensor : CpuTensor) (tokenIds : List Nat) (name : Str)
    (vocab width : Nat) : EngineResult CpuTensor := do
  let outputLen ← Outcome.okOr (.ShapeMismatch "embedding lookup output element count overflow")
    (checkedMul tokenIds.length width)
  withCapacity outputLen 4
  let out ← tokenIds.mapM fun tokenId => do
    let token ← tokenIdx tokenId vocab
    let start ← Outcome.okOr (.ShapeMismatch "embedding lookup row start overflow")
      (checkedMul token width)
    if start + width < 2 ^ 64 then Outcome.orPanic (Rows.slice tensor.data start width)
    else .err (.ShapeMismatch "embedding lookup row end overflow")
  fromF32 name [tokenIds.length, width] out.flatten

/-- `embedding_lookup` -/
def embeddingLookup [FloatOps] (tensor : CpuTensor) (tokenIds : List Nat)
    (name : Str) : EngineResult CpuTensor := do
  requireRank tensor 2 "embedding weight"
  let vocab ← tensor.dim 0
  let width ← tensor.dim 1
  match tensor.q8_0Blocks, tensor.q4KWireBytes, tensor.q5KWireBytes, tensor.q6KWireBytes with
  | some blocks, _, _, _ =>
    tensor.embeddingLookupQ8_0BlockBacked tokenIds name vocab width blocks
  | none, some wire, _, _ =>
    embeddingLookupKquantWire tokenIds name vocab width wire 144 Q4KBlock.decode
  | none, none, some wire, _ =>
    embeddingLookupKquantWire tokenIds name vocab width wire 176 Q5KBlock.decode
  | none, none, none, some wire =>
    embeddingLookupKquantWire tokenIds name vocab width wire 210 Q6KBlock.decode
  | none, none, none, none => tensor.embeddingLookupData tokenIds name vocab width

end CpuTensor

end CamelidEnterprise

import CamelidEnterprise.Engine.DecodeLength
import CamelidEnterprise.Engine.Loaders

/-!
# Camelid Enterprise — row dots of a matrix of blocks

`Q8_0TensorBlocks` of `crates/engine-core/src/tensor/mod.rs`: a Q8_0 tensor that is kept as
decoded blocks, the dot of one of its rows with an input, and the dot of all of them, which
walks whole blocks where a row ends with one.

* `dotAllRowsF32_agrees_iff` — the batch returns the dots of the rows for a loaded matrix
  that has columns, and for one without columns it cuts its blocks into chunks of none.
-/

namespace CamelidEnterprise

open Foundation Gguf

/-- `Q8_0TensorBlocks` -/
structure Q8_0TensorBlocks where
  name : Str
  dims : List Nat
  blocks : List Q8_0Block
deriving DecidableEq

/-- `load_q8_0_blocks` -/
def TensorStore.loadQ8_0Blocks (build : Build) (store : TensorStore) (name : Str) :
    EngineResult Q8_0TensorBlocks := do
  let desc ← store.descriptor name
  if desc.tensorType ≠ .Q8_0 then
    .err (.UnsupportedTensorType
      s!"tensor {display name} has storage type {desc.tensorType.debug}; q8_0 block-only load requires Q8_0")
  else do
    let bytes ← store.tensorBytes name
    let expectedElements ← elementCount desc.dims
    let blocks ← build.decodeQ8_0Blocks name bytes expectedElements
    .ok { name, dims := desc.dims, blocks }

/-- `xs.chunks_exact(size)`, which panics when the size is zero. -/
def chunksExactChecked {α : Type} (size : Nat) (xs : List α) : EngineResult (List (List α)) :=
  if size = 0 then .fault .panic else .ok (chunksExact size xs)

namespace Q8_0TensorBlocks

/-- `rank2_shape` -/
def rank2Shape (tensor : Q8_0TensorBlocks) (op : String) : EngineResult (Nat × Nat) :=
  match tensor.dims with
  | [rows, cols] => .ok (rows, cols)
  | dims =>
    .err (.ShapeMismatch
      s!"tensor {display tensor.name} q8_0 {op} requires rank-2 shape, got {debugDims dims}")

/-- `rank2_row_shape` -/
def rank2RowShape (tensor : Q8_0TensorBlocks) (row : Nat) (op : String) :
    EngineResult (Nat × Nat) := do
  let (rows, cols) ← tensor.rank2Shape op
  if rows ≤ row then
    .err (.ShapeMismatch
      s!"tensor {display tensor.name} q8_0 row {row} out of range for {rows} rows")
  else .ok (rows, cols)

variable [FloatOps]

/-- One column of `dot_row_f32`. -/
def dotColumn (tensor : Q8_0TensorBlocks) (row rowStart : Nat) (sum : F32)
    (entry : F32 × Nat) : EngineResult F32 := do
  let (inputValue, col) := entry
  let elementIdx ← plainAdd rowStart col
  let block ← Outcome.okOr
    (.InvalidTensorData
      s!"tensor {display tensor.name} q8_0 block index {elementIdx / 32} missing for row {row} col {col}")
    tensor.blocks[elementIdx / 32]?
  let quant := block.quants.get ⟨elementIdx % 32, Nat.mod_lt _ (by decide)⟩
  .ok (sum + block.scale * F32.ofInt quant.toInt * inputValue)

/-- `dot_row_f32` -/
def dotRowF32 (tensor : Q8_0TensorBlocks) (row : Nat) (input : List F32) : EngineResult F32 := do
  let (_, cols) ← tensor.rank2RowShape row "row dot"
  if input.length ≠ cols then
    .err (.ShapeMismatch
      s!"tensor {display tensor.name} q8_0 row dot expected input width {cols}, got {input.length}")
  else do
    let rowStart ← Outcome.okOr
      (.InvalidTensorData s!"tensor {display tensor.name} q8_0 row dot offset overflows usize")
      (checkedMul row cols)
    input.zipIdx.foldlM (tensor.dotColumn row rowStart) 0

/-- One block of a row on the fast path. -/
def dotBlock (sum : F32) (entry : Q8_0Block × List F32) : F32 :=
  let (block, inputBlock) := entry
  (List.zip block.quants.toList inputBlock).foldl
    (fun sum (quant, inputValue) => sum + block.scale * F32.ofInt quant.toInt * inputValue) sum

/-- The fast path of `dot_all_rows_f32`, for rows that end with a block. -/
def dotWholeBlocks (tensor : Q8_0TensorBlocks) (rows cols : Nat) (input : List F32) :
    EngineResult (List F32) := do
  let blocksPerRow := cols / 32
  let expectedBlocks ← Outcome.okOr
    (.InvalidTensorData
      s!"tensor {display tensor.name} q8_0 all-row dot block count overflows usize")
    (checkedMul rows blocksPerRow)
  if tensor.blocks.length ≠ expectedBlocks then
    .err (.ShapeMismatch
      s!"tensor {display tensor.name} q8_0 all-row dot expected {expectedBlocks} blocks for shape {debugDims tensor.dims}, got {tensor.blocks.length}")
  else do
    let rowBlocks ← chunksExactChecked blocksPerRow tensor.blocks
    .ok (rowBlocks.map fun blocks => (List.zip blocks (chunksExact 32 input)).foldl dotBlock 0)

/-- The sums of `dot_all_rows_f32`. -/
def dotRows (tensor : Q8_0TensorBlocks) (rows cols : Nat) (input : List F32) :
    EngineResult (List F32) :=
  if cols % 32 = 0 then tensor.dotWholeBlocks rows cols input
  else (List.range rows).mapM fun row => tensor.dotRowF32 row input

/-- A tensor of one dimension. -/
def vector (name : Str) (rows : Nat) (data : List F32) : CpuTensor :=
  { name, dims := [rows], sourceType := none, q8_0Blocks := none, q4KWireBytes := none
    q5KWireBytes := none, q6KWireBytes := none, data }

/-- `dot_all_rows_f32` -/
def dotAllRowsF32 (tensor : Q8_0TensorBlocks) (input : List F32) (name : Str) :
    EngineResult CpuTensor := do
  let (rows, cols) ← tensor.rank2Shape "all-row dot"
  if input.length ≠ cols then
    .err (.ShapeMismatch
      s!"tensor {display tensor.name} q8_0 all-row dot expected input width {cols}, got {input.length}")
  else do
    withCapacity rows 4
    let data ← tensor.dotRows rows cols input
    .ok (vector name rows data)

end Q8_0TensorBlocks

-- ---------------------------------------------------------------------------
-- A loaded matrix
-- ---------------------------------------------------------------------------

/-- The blocks of a loaded tensor cover its elements. -/
theorem TensorStore.loadQ8_0Blocks_eq_ok {build : Build} {store : TensorStore} {name : Str}
    {tensor : Q8_0TensorBlocks} (h : store.loadQ8_0Blocks build name = .ok tensor) :
    ∃ elements, elementCount tensor.dims = .ok elements ∧
      tensor.blocks.length * 32 = elements := by
  obtain ⟨desc, -, h⟩ := Outcome.bind_eq_ok.mp h
  split at h
  · exact absurd h (by simp)
  obtain ⟨bytes, -, h⟩ := Outcome.bind_eq_ok.mp h
  obtain ⟨elements, helements, h⟩ := Outcome.bind_eq_ok.mp h
  obtain ⟨blocks, hblocks, h⟩ := Outcome.bind_eq_ok.mp h
  obtain rfl := Outcome.ok.inj h
  refine ⟨elements, helements, ?_⟩
  unfold Build.decodeQ8_0Blocks at hblocks
  split at hblocks
  · exact absurd hblocks (by simp)
  rename_i haligned
  obtain ⟨expectedBytes, hmul, hblocks⟩ := Outcome.bind_eq_ok.mp hblocks
  split at hblocks
  · exact absurd hblocks (by simp)
  rename_i hlength
  obtain ⟨hcapacity, hblocks⟩ := Outcome.check_eq_ok.mp hblocks
  have hfits := withCapacity_eq_ok.mp hcapacity
  obtain rfl := Outcome.ok.inj hblocks
  -- blocks that were reserved in full have bytes that did not wrap
  have hbytes : bytes.length = elements / 32 * 34 := by
    rcases Build.mul_eq_ok.mp hmul with ⟨hexact, -⟩ | ⟨-, hlarge, -⟩
    · omega
    · omega
  rw [List.length_map, length_chunksExact, hbytes, Nat.mul_div_cancel _ (by decide)]
  omega

-- ---------------------------------------------------------------------------
-- Both ways through a row
-- ---------------------------------------------------------------------------

theorem chunksExact_cons {α : Type} {size : Nat} {xs : List α} (hpos : 0 < size)
    (h : size ≤ xs.length) :
    chunksExact size xs = xs.take size :: chunksExact size (xs.drop size) := by
  have hcount : xs.length / size = (xs.length - size) / size + 1 := by
    rw [← Nat.add_div_right _ hpos, Nat.sub_add_cancel h]
  unfold chunksExact
  rw [hcount, List.range_succ_eq_map, List.map_cons, List.map_map, List.length_drop]
  refine congrArg₂ List.cons (by simp) (List.map_congr_left fun i _ => ?_)
  rw [Function.comp_apply, List.drop_drop, Nat.succ_mul, Nat.add_comm]

namespace Q8_0TensorBlocks

variable [FloatOps]

/-- The sum of the products of weights and inputs, from the first on. -/
def dotFold (sum : F32) (weights input : List F32) : F32 :=
  (List.zip weights input).foldl (fun sum (weight, inputValue) => sum + weight * inputValue) sum

theorem dotFold_append {weights weights' input input' : List F32}
    (h : weights.length = input.length) (sum : F32) :
    dotFold sum (weights ++ weights') (input ++ input') =
      dotFold (dotFold sum weights input) weights' input' := by
  unfold dotFold
  rw [List.zip_append h, List.foldl_append]

theorem dotBlock_eq (block : Q8_0Block) (inputBlock : List F32) (sum : F32) :
    dotBlock sum (block, inputBlock) = dotFold sum block.dequantize inputBlock := by
  unfold dotBlock dotFold Q8_0Block.dequantize
  dsimp only
  rw [List.zip_map_left, List.foldl_map]
  rfl

/-- Block by block is value by value. -/
theorem foldl_dotBlock (blocks : List Q8_0Block) (input : List F32) (sum : F32)
    (h : input.length = blocks.length * 32) :
    (List.zip blocks (chunksExact 32 input)).foldl dotBlock sum =
      dotFold sum (blocks.flatMap Q8_0Block.dequantize) input := by
  induction blocks generalizing input sum with
  | nil => rfl
  | cons block blocks ih =>
    rw [List.length_cons, Nat.succ_mul] at h
    have htake : block.dequantize.length = (input.take 32).length := by
      rw [Q8_0Block.length_dequantize, List.length_take]
      omega
    have hdrop : (input.drop 32).length = blocks.length * 32 := by
      rw [List.length_drop]
      omega
    rw [chunksExact_cons (by decide) (by omega), List.zip_cons_cons, List.foldl_cons, dotBlock_eq,
      ih _ _ hdrop, List.flatMap_cons, ← dotFold_append htake, List.take_append_drop]

/-- The columns of a row, from one of them on. -/
theorem foldlM_dotColumn {tensor : Q8_0TensorBlocks} {row rowStart : Nat} (input : List F32)
    (col : Nat) (sum : F32) (hend : rowStart + col + input.length ≤ tensor.blocks.length * 32)
    (hword : tensor.blocks.length * 32 < 2 ^ 64) :
    (input.zipIdx col).foldlM (tensor.dotColumn row rowStart) sum =
      .ok (dotFold sum
        ((tensor.blocks.flatMap Q8_0Block.dequantize).drop (rowStart + col)) input) := by
  induction input generalizing col sum with
  | nil =>
    unfold dotFold
    rw [List.zip_nil_right]
    rfl
  | cons inputValue input ih =>
    rw [List.length_cons] at hend
    have hblock : (rowStart + col) / 32 < tensor.blocks.length := by omega
    have hlength : rowStart + col < (tensor.blocks.flatMap Q8_0Block.dequantize).length := by
      rw [Rows.length_flatMap_blocks Q8_0Block.length_dequantize]
      omega
    have hvalue : (tensor.blocks.flatMap Q8_0Block.dequantize)[rowStart + col] =
        tensor.blocks[(rowStart + col) / 32].scale * F32.ofInt
          (tensor.blocks[(rowStart + col) / 32].quants.get
            ⟨(rowStart + col) % 32, Nat.mod_lt _ (by decide)⟩).toInt := by
      have hplace := Rows.getElem?_flatMap_blocks Q8_0Block.length_dequantize tensor.blocks
        ((rowStart + col) / 32) ((rowStart + col) % 32) (Nat.mod_lt _ (by decide))
      rw [show (rowStart + col) / 32 * 32 + (rowStart + col) % 32 = rowStart + col by omega,
        List.getElem?_eq_getElem hlength, List.getElem?_eq_getElem hblock, Option.bind_some] at hplace
      unfold Q8_0Block.dequantize at hplace
      rw [List.getElem?_map, Vector.getElem?_toList,
        Vector.getElem?_eq_getElem (Nat.mod_lt _ (by decide))] at hplace
      exact Option.some.inj hplace
    have hcolumn : tensor.dotColumn row rowStart sum (inputValue, col) =
        .ok (sum + (tensor.blocks.flatMap Q8_0Block.dequantize)[rowStart + col] * inputValue) := by
      unfold dotColumn plainAdd
      dsimp only
      rw [if_pos (by omega), Outcome.ok_bind, List.getElem?_eq_getElem hblock, Outcome.okOr_some,
        Outcome.ok_bind, hvalue]
    rw [List.zipIdx_cons, List.foldlM_cons, hcolumn, Outcome.ok_bind, ih _ _ (by omega),
      List.drop_eq_getElem_cons hlength]
    rfl

/-- The dot of a row: its values with the input. -/
def rowSum (tensor : Q8_0TensorBlocks) (cols : Nat) (input : List F32) (row : Nat) : F32 :=
  dotFold 0 ((tensor.blocks.flatMap Q8_0Block.dequantize).drop (row * cols)) input

theorem dotFold_take (sum : F32) (weights input : List F32) :
    dotFold sum (weights.take input.length) input = dotFold sum weights input := by
  induction input generalizing sum weights with
  | nil => simp [dotFold]
  | cons inputValue input ih =>
    rcases weights with _ | ⟨weight, weights⟩
    · rfl
    · exact ih (sum + weight * inputValue) weights

section Matrix

variable {tensor : Q8_0TensorBlocks} {rows cols : Nat} {input : List F32}
  (hcount : tensor.blocks.length * 32 = rows * cols) (hinput : input.length = cols)

include hcount hinput

theorem dotRowF32_eq (hdims : tensor.dims = [rows, cols]) (hword : rows * cols < 2 ^ 64) {row : Nat}
    (hrow : row < rows) : tensor.dotRowF32 row input = .ok (tensor.rowSum cols input row) := by
  have hend := Rows.row_le (w := cols) hrow
  unfold dotRowF32 rank2RowShape rank2Shape
  rw [hdims]
  dsimp only
  rw [Outcome.ok_bind]
  dsimp only
  rw [if_neg (Nat.not_le.mpr hrow), Outcome.ok_bind]
  dsimp only
  rw [if_neg (not_not.mpr hinput), checkedMul_eq_some.mpr ⟨rfl, by omega⟩, Outcome.okOr_some,
    Outcome.ok_bind, foldlM_dotColumn input 0 0 (by omega) (by omega)]
  rfl

theorem dotWholeBlocks_eq (haligned : 32 ∣ cols) (hpos : cols ≠ 0) (hword : rows * cols < 2 ^ 64) :
    tensor.dotWholeBlocks rows cols input = .ok ((List.range rows).map (tensor.rowSum cols input)) := by
  obtain ⟨perRow, rfl⟩ := haligned
  have hperRow : 32 * perRow / 32 = perRow := Nat.mul_div_cancel_left _ (by decide)
  have hblocks : tensor.blocks.length = rows * perRow := by
    have hcommon : tensor.blocks.length * 32 = rows * perRow * 32 := by
      rw [hcount]
      ring
    exact Nat.eq_of_mul_eq_mul_right (by decide) hcommon
  have hperRowPos : 0 < perRow := by omega
  have hchunks : chunksExact perRow tensor.blocks =
      (List.range rows).map fun row => (tensor.blocks.drop (row * perRow)).take perRow := by
    unfold chunksExact
    rw [hblocks, Nat.mul_div_cancel _ hperRowPos]
  unfold dotWholeBlocks chunksExactChecked
  dsimp only
  rw [hperRow, checkedMul_eq_some.mpr ⟨rfl, by omega⟩, Outcome.okOr_some, Outcome.ok_bind,
    if_neg (not_not.mpr hblocks), if_neg (Nat.pos_iff_ne_zero.mp hperRowPos), Outcome.ok_bind]
  rw [hchunks, List.map_map]
  refine congrArg Outcome.ok (List.map_congr_left fun row hrow => ?_)
  have hend := Rows.row_le (w := perRow) (List.mem_range.mp hrow)
  have hrowBlocks : ((tensor.blocks.drop (row * perRow)).take perRow).length = perRow := by
    rw [List.length_take, List.length_drop]
    omega
  rw [Function.comp_apply, foldl_dotBlock _ _ _ (by rw [hrowBlocks, hinput, Nat.mul_comm]),
    ← Rows.take_flatMap_blocks Q8_0Block.length_dequantize,
    ← Rows.drop_flatMap_blocks Q8_0Block.length_dequantize,
    show perRow * 32 = input.length by rw [hinput, Nat.mul_comm], dotFold_take,
    show row * perRow * 32 = row * (32 * perRow) by ring]
  rfl

/-- A matrix with columns: the batch is the dots of the rows. -/
theorem dotRows_eq (hdims : tensor.dims = [rows, cols]) (hpos : cols ≠ 0)
    (hword : rows * cols < 2 ^ 64) :
    tensor.dotRows rows cols input = .ok ((List.range rows).map (tensor.rowSum cols input)) := by
  unfold dotRows
  by_cases haligned : cols % 32 = 0
  · rw [if_pos haligned]
    exact dotWholeBlocks_eq hcount hinput (Nat.dvd_of_mod_eq_zero haligned) hpos hword
  · rw [if_neg haligned, ← Outcome.mapM_ok]
    exact Outcome.mapM_congr fun row hrow =>
      dotRowF32_eq hcount hinput hdims hword (List.mem_range.mp hrow)

omit [FloatOps] hcount in
theorem dotAllRowsF32_eq [FloatOps] (hdims : tensor.dims = [rows, cols]) (name : Str) :
    tensor.dotAllRowsF32 input name = (do
      withCapacity rows 4
      let data ← tensor.dotRows rows cols input
      .ok (vector name rows data)) := by
  unfold dotAllRowsF32 rank2Shape
  rw [hdims]
  dsimp only
  rw [Outcome.ok_bind]
  dsimp only
  rw [if_neg (not_not.mpr hinput)]

end Matrix

/-- The batch returns the dots of all rows, and neither panics. -/
def Agrees (tensor : Q8_0TensorBlocks) (rows : Nat) (input : List F32) (name : Str) : Prop :=
  ∃ sums, ((List.range rows).mapM fun row => tensor.dotRowF32 row input) = .ok sums ∧
    tensor.dotAllRowsF32 input name = .ok (vector name rows sums)

omit [FloatOps] in
theorem elementCount_pair_eq_ok {rows cols elements : Nat}
    (h : elementCount [rows, cols] = .ok elements) :
    elements = rows * cols ∧ rows * cols < 2 ^ 64 := by
  unfold elementCount at h
  rw [List.foldlM_cons] at h
  obtain ⟨first, hfirst, h⟩ := Outcome.bind_eq_ok.mp h
  obtain ⟨rfl, -⟩ := checkedMul_eq_some.mp (Outcome.okOr_eq_ok.mp hfirst)
  rw [List.foldlM_cons] at h
  obtain ⟨second, hsecond, h⟩ := Outcome.bind_eq_ok.mp h
  obtain rfl := Outcome.ok.inj h
  rw [Nat.one_mul] at hsecond
  exact checkedMul_eq_some.mp (Outcome.okOr_eq_ok.mp hsecond)

/-- The batch agrees with the rows of a loaded matrix where it has columns, and its sums
fit in one vector. Blocks cannot be cut into the rows of a matrix without columns. -/
theorem dotAllRowsF32_agrees_iff {build : Build} {store : TensorStore} {name outName : Str}
    {tensor : Q8_0TensorBlocks} (hloaded : store.loadQ8_0Blocks build name = .ok tensor)
    {rows cols : Nat} (hdims : tensor.dims = [rows, cols]) {input : List F32}
    (hinput : input.length = cols) :
    Agrees tensor rows input outName ↔ cols ≠ 0 ∧ rows * 4 < 2 ^ 63 := by
  obtain ⟨elements, helements, hcount⟩ := TensorStore.loadQ8_0Blocks_eq_ok hloaded
  rw [hdims] at helements
  obtain ⟨rfl, hword⟩ := elementCount_pair_eq_ok helements
  unfold Agrees
  rw [dotAllRowsF32_eq hinput hdims]
  constructor
  · rintro ⟨sums, -, hbatch⟩
    obtain ⟨hcapacity, hbatch⟩ := Outcome.check_eq_ok.mp hbatch
    refine ⟨?_, withCapacity_eq_ok.mp hcapacity⟩
    rintro rfl
    obtain ⟨data, hdata, -⟩ := Outcome.bind_eq_ok.mp hbatch
    unfold dotRows at hdata
    rw [if_pos (Nat.zero_mod 32)] at hdata
    obtain ⟨expectedBlocks, -, hdata⟩ := Outcome.bind_eq_ok.mp hdata
    split at hdata
    · exact absurd hdata (by simp)
    · obtain ⟨rowBlocks, hrowBlocks, -⟩ := Outcome.bind_eq_ok.mp hdata
      exact absurd hrowBlocks (by simp [chunksExactChecked])
  · rintro ⟨hpos, hfits⟩
    refine ⟨(List.range rows).map (tensor.rowSum cols input), ?_, ?_⟩
    · rw [← Outcome.mapM_ok]
      exact Outcome.mapM_congr fun row hrow =>
        dotRowF32_eq hcount hinput hdims hword (List.mem_range.mp hrow)
    · rw [withCapacity_eq_ok.mpr hfits, Outcome.ok_bind,
        dotRows_eq hcount hinput hdims hpos hword, Outcome.ok_bind]

end Q8_0TensorBlocks

-- ---------------------------------------------------------------------------
-- A matrix without columns
-- ---------------------------------------------------------------------------

section Samples

attribute [local instance] residueOps

/-- A store of one Q8_0 matrix of 32 rows, in a file of zeros. -/
def rowsStore (cols : UInt64) : TensorStore where
  path := "model.gguf"
  file := List.replicate (32 * cols.toNat / 32 * 34) 0
  descriptors :=
    [{ name := ['w'], dimensions := [32, cols], tensorType := .Q8_0, relativeOffset := 0
       absoluteOffset := 0, nBytes := 32 * cols / 32 * 34 }]

/-- Its matrix. -/
def rowsMatrix (cols : Nat) : Q8_0TensorBlocks :=
  ⟨['w'], [32, cols], List.replicate cols ⟨0, Vector.replicate 32 0⟩⟩

theorem rowsMatrix_loaded : (rowsStore 1).loadQ8_0Blocks .release ['w'] = .ok (rowsMatrix 1) := by
  decide +kernel

theorem dotAllRowsF32_agrees_sample :
    (rowsMatrix 1).Agrees 32 [3] ['o'] ↔ 1 ≠ 0 ∧ 32 * 4 < 2 ^ 63 :=
  Q8_0TensorBlocks.dotAllRowsF32_agrees_iff rowsMatrix_loaded rfl rfl

/-- A row without columns has the dot zero, and the batch of 32 of them panics. -/
theorem dotAllRowsF32_noColumns :
    (rowsStore 0).loadQ8_0Blocks .release ['w'] = .ok (rowsMatrix 0) ∧
    (∀ row < 32, (rowsMatrix 0).dotRowF32 row [] = .ok 0) ∧
    (rowsMatrix 0).dotAllRowsF32 [] ['o'] = .fault .panic ∧
    ¬(rowsMatrix 0).Agrees 32 [] ['o'] := by
  have hpanic : (rowsMatrix 0).dotAllRowsF32 [] ['o'] = .fault .panic := by decide +kernel
  refine ⟨by decide +kernel, by decide +kernel, hpanic, ?_⟩
  rintro ⟨sums, -, hbatch⟩
  exact absurd (hpanic.symm.trans hbatch) (by simp)

end Samples

end CamelidEnterprise

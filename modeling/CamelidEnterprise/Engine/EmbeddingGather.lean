import CamelidEnterprise.Engine.DecodeLength
import CamelidEnterprise.Engine.KQuantValues
import CamelidEnterprise.Engine.LoadShapes

/-!
# Camelid Enterprise — gathers and full decoders

The rows `embedding_lookup` of `crates/engine-core/src/tensor/mod.rs` gathers out of blocks,
beside the full decoders of `crates/engine-core/src/tensor/blocks.rs`. `Engine/Tensor.lean`
has the gather over what a decoder returns for a block; here a super-block is dequantized
into a buffer, the gather uses one buffer for all of them and the full decoder a new one for
each, and both reserve the room for what they return. A vector that grows past what it has
reserved is not checked again.

* `embeddingLookup_selects` — a gather returns the rows of the full decoding that the token
  list selects.
-/

namespace CamelidEnterprise

open Foundation Foundation.Buffer Gguf

section Floats

variable [FloatOps]

-- ---------------------------------------------------------------------------
-- Super-blocks
-- ---------------------------------------------------------------------------

/-- `|b, out| { Q4KBlock::from_bytes(b.try_into().unwrap()).dequantize(out); }` -/
def Q4KBlock.dequantizeBytes (bytes : List UInt8) (out : Vector F32 256) :
    EngineResult (Vector F32 256) := do
  let block ← blockOf 144 bytes
  (Q4KBlock.fromBytes block).dequantize out

/-- The same for Q5_K. -/
def Q5KBlock.dequantizeBytes (bytes : List UInt8) (out : Vector F32 256) :
    EngineResult (Vector F32 256) := do
  let block ← blockOf 176 bytes
  (Q5KBlock.fromBytes block).dequantize out

/-- The same for Q6_K. -/
def Q6KBlock.dequantizeBytes (bytes : List UInt8) (out : Vector F32 256) :
    EngineResult (Vector F32 256) := do
  let block ← blockOf 210 bytes
  (Q6KBlock.fromBytes block).dequantize out

/-- The code of a format of super-blocks. -/
abbrev DequantizeBytes := List UInt8 → Vector F32 256 → EngineResult (Vector F32 256)

/-- The decoders of the super-block formats: each block into a buffer of its own. They do
not look at the element count, but for the room they reserve. -/
def decodeSuperBlocks (label : String) (blockBytes : Nat) (dequantBlock : DequantizeBytes)
    (name : Str) (bytes : List UInt8) (expectedElements : Nat) : EngineResult (List F32) :=
  if bytes.length % blockBytes ≠ 0 then
    .err (.InvalidTensorData
      s!"{display name}: invalid tensor data: {label} byte length {bytes.length} is not aligned to {blockBytes}-byte blocks")
  else do
    withCapacity expectedElements 4
    let blocks ← (chunksExact blockBytes bytes).mapM fun chunk =>
      dequantBlock chunk (Vector.replicate 256 0)
    .ok (blocks.flatMap Vector.toList)

namespace Gather

/-- `decode_q4_k_tensor` -/
def decodeQ4KTensor := decodeSuperBlocks "Q4_K" 144 Q4KBlock.dequantizeBytes

/-- `decode_q5_k_tensor` -/
def decodeQ5KTensor := decodeSuperBlocks "Q5_K" 176 Q5KBlock.dequantizeBytes

/-- `decode_q6_k_tensor` -/
def decodeQ6KTensor := decodeSuperBlocks "Q6_K" 210 Q6KBlock.dequantizeBytes

variable (build : Build)

-- ---------------------------------------------------------------------------
-- The gathers
-- ---------------------------------------------------------------------------

/-- One super-block of a row: `values` is dequantized into and then appended. -/
def gatherBlock (row : List UInt8) (blockBytes : Nat) (dequantBlock : DequantizeBytes)
    (state : List F32 × Vector F32 256) (b : Nat) : EngineResult (List F32 × Vector F32 256) := do
  let (out, values) := state
  let block ← Outcome.orPanic (Rows.row row blockBytes b)
  let values ← dequantBlock block values
  .ok (out ++ values.toList, values)

/-- One token of `embedding_lookup_kquant_wire`: the blocks of its row, one after the other
into the same buffer. -/
def kquantRow (vocab blocksPerRow rowBytes blockBytes : Nat) (wire : List UInt8)
    (dequantBlock : DequantizeBytes) (state : List F32 × Vector F32 256) (tokenId : Nat) :
    EngineResult (List F32 × Vector F32 256) := do
  let token ← CpuTensor.tokenIdx tokenId vocab
  let row ← Outcome.orPanic (Rows.row wire rowBytes token)
  (List.range blocksPerRow).foldlM (gatherBlock row blockBytes dequantBlock) state

/-- `embedding_lookup_kquant_wire` -/
def embeddingLookupKquantWire (tokenIds : List Nat) (name : Str) (vocab width : Nat)
    (wire : List UInt8) (blockBytes : Nat) (dequantBlock : DequantizeBytes) :
    EngineResult CpuTensor := do
  if width % 256 ≠ 0 then
    .err (.ShapeMismatch s!"K-quant embedding width {width} is not divisible by 256")
  else do
    let blocksPerRow := width / 256
    let rowBytes ← build.mul blocksPerRow blockBytes
    let expected ← Outcome.okOr (.ShapeMismatch "K-quant embedding byte count overflow")
      (checkedMul vocab rowBytes)
    if wire.length ≠ expected then
      .err (.ShapeMismatch
        s!"K-quant embedding wire bytes {wire.length} do not match expected {expected}")
    else do
      let outputLen ← build.mul tokenIds.length width
      withCapacity outputLen 4
      let (out, _) ← tokenIds.foldlM
        (kquantRow vocab blocksPerRow rowBytes blockBytes wire dequantBlock)
        ([], Vector.replicate 256 0)
      CpuTensor.fromF32 name [tokenIds.length, width] out

/-- `embedding_lookup_q8_0_block_backed` -/
def embeddingLookupQ8_0BlockBacked (tensor : CpuTensor) (tokenIds : List Nat) (name : Str)
    (vocab width : Nat) (blocks : List Q8_0Block) : EngineResult CpuTensor := do
  if tensor.sourceType ≠ some .Q8_0 then
    .err (.ShapeMismatch
      s!"block-backed embedding {display tensor.name} must come from Q8_0 storage")
  else if width % 32 ≠ 0 then
    .err (.ShapeMismatch s!"block-backed q8_0 embedding width {width} is not divisible by 32")
  else do
    let blocksPerRow := width / 32
    let expectedBlocks ← Outcome.okOr
      (.ShapeMismatch "block-backed q8_0 embedding block count overflow")
      (checkedMul vocab blocksPerRow)
    if blocks.length ≠ expectedBlocks then
      .err (.ShapeMismatch
        s!"block-backed q8_0 embedding block count {blocks.length} does not match expected {expectedBlocks}")
    else do
      let outputLen ← Outcome.okOr
        (.ShapeMismatch "block-backed q8_0 embedding output element count overflow")
        (checkedMul tokenIds.length width)
      withCapacity outputLen 4
      let out ← tokenIds.mapM fun tokenId => do
        let token ← CpuTensor.tokenIdx tokenId vocab
        let _ ← Outcome.okOr (.ShapeMismatch "block-backed q8_0 embedding row start overflow")
          (checkedMul token blocksPerRow)
        let row ← Outcome.orPanic (Rows.row blocks blocksPerRow token)
        .ok (row.flatMap Q8_0Block.dequantize)
      CpuTensor.fromF32 name [tokenIds.length, width] out.flatten

/-- The gather from row-major data. -/
def embeddingLookupData (tensor : CpuTensor) (tokenIds : List Nat) (name : Str)
    (vocab width : Nat) : EngineResult CpuTensor := do
  let outputLen ← Outcome.okOr (.ShapeMismatch "embedding lookup output element count overflow")
    (checkedMul tokenIds.length width)
  withCapacity outputLen 4
  tensor.embeddingLookupData tokenIds name vocab width

/-- `embedding_lookup` -/
def embeddingLookup (tensor : CpuTensor) (tokenIds : List Nat) (name : Str) :
    EngineResult CpuTensor := do
  requireRank tensor 2 "embedding weight"
  let vocab ← tensor.dim 0
  let width ← tensor.dim 1
  match tensor.q8_0Blocks, tensor.q4KWireBytes, tensor.q5KWireBytes, tensor.q6KWireBytes with
  | some blocks, _, _, _ => embeddingLookupQ8_0BlockBacked tensor tokenIds name vocab width blocks
  | none, some wire, _, _ =>
    embeddingLookupKquantWire build tokenIds name vocab width wire 144 Q4KBlock.dequantizeBytes
  | none, none, some wire, _ =>
    embeddingLookupKquantWire build tokenIds name vocab width wire 176 Q5KBlock.dequantizeBytes
  | none, none, none, some wire =>
    embeddingLookupKquantWire build tokenIds name vocab width wire 210 Q6KBlock.dequantizeBytes
  | none, none, none, none => embeddingLookupData tensor tokenIds name vocab width

end Gather

-- ---------------------------------------------------------------------------
-- A super-block fills its buffer
-- ---------------------------------------------------------------------------

/-- What the code of a format leaves in a new buffer. -/
def superValues (dequantBlock : DequantizeBytes) (bytes : List UInt8) : Vector F32 256 :=
  match dequantBlock bytes (Vector.replicate 256 0) with
  | .ok values => values
  | _ => Vector.replicate 256 0

omit [FloatOps] in
theorem length_superValues (dequantBlock : DequantizeBytes) (bytes : List UInt8) :
    (superValues dequantBlock bytes).toList.length = 256 := Vector.length_toList

/-- The code of a format returns the same for any buffer: nothing of the block before is
left in it. -/
def Overwrites (blockBytes : Nat) (dequantBlock : DequantizeBytes) : Prop :=
  ∀ bytes out, bytes.length = blockBytes →
    dequantBlock bytes out = .ok (superValues dequantBlock bytes)

theorem Q4KBlock.overwrites : Overwrites 144 Q4KBlock.dequantizeBytes := by
  intro bytes out h
  unfold superValues Q4KBlock.dequantizeBytes blockOf
  rw [dif_pos h, Outcome.ok_bind, Outcome.ok_bind, Q4KBlock.dequantize_eq, Q4KBlock.dequantize_eq]

theorem Q5KBlock.overwrites : Overwrites 176 Q5KBlock.dequantizeBytes := by
  intro bytes out h
  unfold superValues Q5KBlock.dequantizeBytes blockOf
  rw [dif_pos h, Outcome.ok_bind, Outcome.ok_bind, Q5KBlock.dequantize_eq, Q5KBlock.dequantize_eq]

theorem Q6KBlock.overwrites : Overwrites 210 Q6KBlock.dequantizeBytes := by
  intro bytes out h
  unfold superValues Q6KBlock.dequantizeBytes blockOf
  rw [dif_pos h, Outcome.ok_bind, Outcome.ok_bind, Q6KBlock.dequantize_eq, Q6KBlock.dequantize_eq]

omit [FloatOps] in
/-- A full decoder that returned: the values of each block, one after the other. -/
theorem decodeSuperBlocks_eq_ok {label : String} {blockBytes : Nat} {dequantBlock : DequantizeBytes}
    (hover : Overwrites blockBytes dequantBlock) {name : Str} {bytes : List UInt8}
    {expectedElements : Nat} {data : List F32}
    (h : decodeSuperBlocks label blockBytes dequantBlock name bytes expectedElements = .ok data) :
    expectedElements * 4 < 2 ^ 63 ∧ bytes.length % blockBytes = 0 ∧
      data = (chunksExact blockBytes bytes).flatMap fun chunk =>
        (superValues dequantBlock chunk).toList := by
  unfold decodeSuperBlocks at h
  split at h
  · exact absurd h (by simp)
  rename_i haligned
  obtain ⟨hcapacity, h⟩ := Outcome.check_eq_ok.mp h
  have hblocks : ∀ chunk ∈ chunksExact blockBytes bytes,
      dequantBlock chunk (Vector.replicate 256 0) = .ok (superValues dequantBlock chunk) :=
    fun chunk hchunk => hover chunk _ (length_of_mem_chunksExact hchunk)
  rw [Outcome.mapM_congr hblocks, Outcome.mapM_ok, Outcome.ok_bind] at h
  refine ⟨withCapacity_eq_ok.mp hcapacity, not_not.mp haligned, ?_⟩
  rw [← Outcome.ok.inj h, List.flatMap_map]

-- ---------------------------------------------------------------------------
-- The rows a token list selects
-- ---------------------------------------------------------------------------

/-- The row of decoded data a token id selects; an id past the vocabulary is refused. -/
def selectRow (data : List F32) (vocab width tokenId : Nat) : EngineResult (List F32) := do
  let token ← CpuTensor.tokenIdx tokenId vocab
  .ok ((data.drop (token * width)).take width)

/-- The rows of decoded data that a token list selects. -/
def selectRows (data : List F32) (vocab width : Nat) (tokenIds : List Nat) (name : Str) :
    EngineResult CpuTensor := do
  let rows ← tokenIds.mapM (selectRow data vocab width)
  .ok (plainMatrix name tokenIds.length width rows.flatten)

section Rows

variable {data : List F32} {vocab width : Nat}

omit [FloatOps] in
theorem selectRow_of_lt {tokenId : Nat} (h : tokenId < vocab) :
    selectRow data vocab width tokenId = .ok ((data.drop (tokenId * width)).take width) := by
  unfold selectRow CpuTensor.tokenIdx
  rw [if_pos h, Outcome.ok_bind]

omit [FloatOps] in
theorem selectRow_of_le {tokenId : Nat} (h : vocab ≤ tokenId) : selectRow data vocab width tokenId =
    .err (.ShapeMismatch s!"token id {tokenId} out of range for vocab size {vocab}") := by
  unfold selectRow CpuTensor.tokenIdx
  rw [if_neg (Nat.not_lt.mpr h)]
  rfl

omit [FloatOps] in
/-- Steps that check the token id first agree with the selection where the id is good. -/
theorem tokenIdx_bind {tokenId : Nat} {f : Nat → EngineResult (List F32)}
    (h : tokenId < vocab → f tokenId = .ok ((data.drop (tokenId * width)).take width)) :
    (CpuTensor.tokenIdx tokenId vocab >>= f) = selectRow data vocab width tokenId := by
  unfold selectRow CpuTensor.tokenIdx
  by_cases hlt : tokenId < vocab
  · rw [if_pos hlt, Outcome.ok_bind, Outcome.ok_bind, h hlt]
  · rw [if_neg hlt]
    rfl

omit [FloatOps] in
theorem length_of_selectRow (hdata : data.length = vocab * width) {tokenId : Nat} {row : List F32}
    (h : selectRow data vocab width tokenId = .ok row) : row.length = width := by
  obtain ⟨token, htoken, h⟩ := Outcome.bind_eq_ok.mp h
  unfold CpuTensor.tokenIdx at htoken
  split at htoken
  · rename_i hlt
    obtain rfl := Outcome.ok.inj htoken
    obtain rfl := Outcome.ok.inj h
    have hend := Rows.row_le (w := width) hlt
    rw [List.length_take, List.length_drop]
    omega
  · exact absurd htoken (by simp)

omit [FloatOps] in
/-- The tensor of the selected rows has room for them. -/
theorem fromF32_selectRow (hdata : data.length = vocab * width) {tokenIds : List Nat} (name : Str)
    (hids : tokenIds.length < 2 ^ 64) (hfits : tokenIds.length * width < 2 ^ 64) :
    (do
      let rows ← tokenIds.mapM (selectRow data vocab width)
      CpuTensor.fromF32 name [tokenIds.length, width] rows.flatten) =
      selectRows data vocab width tokenIds name := by
  unfold selectRows
  rcases hrows : tokenIds.mapM (selectRow data vocab width) with rows | e | k
  · have hwidth : ∀ row ∈ rows, row.length = width := by
      intro row hrow
      obtain ⟨i, hi⟩ := List.mem_iff_getElem?.mp hrow
      obtain ⟨tokenId, -, hselected⟩ := Outcome.getElem?_of_mapM hrows hi
      exact length_of_selectRow hdata hselected
    have hlength : rows.flatten.length = tokenIds.length * width := by
      rw [List.length_flatten, List.map_congr_left hwidth, List.map_const', List.sum_replicate,
        smul_eq_mul, Outcome.length_of_mapM hrows]
    rw [Outcome.ok_bind, Outcome.ok_bind]
    exact (fromF32_pair hids hlength).mpr ⟨hfits, rfl⟩
  · rfl
  · rfl

end Rows

-- ---------------------------------------------------------------------------
-- The gathers select them
-- ---------------------------------------------------------------------------

namespace Gather

variable {data : List F32} {vocab width : Nat}

theorem embeddingLookupQ8_0BlockBacked_eq {tensor : CpuTensor} {blocks : List Q8_0Block}
    (htype : tensor.sourceType = some .Q8_0) (haligned : 32 ∣ width)
    (hvalues : data = blocks.flatMap Q8_0Block.dequantize) (hdata : data.length = vocab * width)
    (hbound : vocab * width < 2 ^ 64) {tokenIds : List Nat} (name : Str)
    (hids : tokenIds.length < 2 ^ 64) (hfits : tokenIds.length * width * 4 < 2 ^ 63) :
    embeddingLookupQ8_0BlockBacked tensor tokenIds name vocab width blocks =
      selectRows data vocab width tokenIds name := by
  obtain ⟨perRow, rfl⟩ := haligned
  have hperRow : 32 * perRow / 32 = perRow := Nat.mul_div_cancel_left _ (by decide)
  have hblockCount : blocks.length = vocab * perRow := by
    rw [hvalues, Rows.length_flatMap_blocks Q8_0Block.length_dequantize, Nat.mul_comm 32 perRow,
      ← Nat.mul_assoc] at hdata
    exact Nat.eq_of_mul_eq_mul_right (by decide) hdata
  have hblocks : vocab * perRow < 2 ^ 64 := by
    have hle : vocab * perRow ≤ vocab * (32 * perRow) := Nat.mul_le_mul_left _ (by omega)
    omega
  unfold embeddingLookupQ8_0BlockBacked
  rw [if_neg (not_not.mpr htype), if_neg (by omega)]
  dsimp only
  rw [hperRow, checkedMul_eq_some.mpr ⟨rfl, hblocks⟩, Outcome.okOr_some, Outcome.ok_bind,
    if_neg (not_not.mpr hblockCount), checkedMul_eq_some.mpr ⟨rfl, (by omega)⟩, Outcome.okOr_some,
    Outcome.ok_bind, withCapacity_eq_ok.mpr hfits, Outcome.ok_bind,
    ← fromF32_selectRow hdata name hids (by omega)]
  congr 1
  refine Outcome.mapM_congr fun tokenId _ => ?_
  refine tokenIdx_bind fun hlt => ?_
  have hrow := Rows.row_le (w := perRow) hlt
  rw [checkedMul_eq_some.mpr ⟨rfl, by omega⟩, Outcome.okOr_some, Outcome.ok_bind, Rows.row,
    Rows.slice_of_le (by omega), hvalues, show tokenId * (32 * perRow) = tokenId * perRow * 32 by ring,
    Nat.mul_comm 32 perRow, Rows.drop_flatMap_blocks Q8_0Block.length_dequantize,
    Rows.take_flatMap_blocks Q8_0Block.length_dequantize]
  rfl

omit [FloatOps] in
theorem gatherBlock_eq {blockBytes perRow b : Nat} {dequantBlock : DequantizeBytes}
    {row : List UInt8} (hover : Overwrites blockBytes dequantBlock)
    (hrow : row.length = perRow * blockBytes) (hb : b < perRow) (out : List F32)
    (values : Vector F32 256) :
    ∃ values', gatherBlock row blockBytes dequantBlock (out, values) b =
      (Outcome.ok (superValues dequantBlock ((row.drop (b * blockBytes)).take blockBytes)).toList).map
        fun block => (out ++ block, values') := by
  have hend := Rows.row_le (w := blockBytes) hb
  have hlength : ((row.drop (b * blockBytes)).take blockBytes).length = blockBytes := by
    rw [List.length_take, List.length_drop]
    omega
  refine ⟨superValues dequantBlock ((row.drop (b * blockBytes)).take blockBytes), ?_⟩
  unfold gatherBlock
  dsimp only
  rw [Rows.row, Rows.slice_of_le (by omega), Outcome.orPanic_some, Outcome.ok_bind,
    hover _ values hlength, Outcome.ok_bind, Outcome.map_ok]

omit [FloatOps] in
/-- A row of the wire bytes, dequantized block by block, is the row of the full decoding. -/
theorem kquantRow_eq {blockBytes perRow : Nat} {dequantBlock : DequantizeBytes} {wire : List UInt8}
    (hover : Overwrites blockBytes dequantBlock) (hpos : 0 < blockBytes)
    (hwire : wire.length = vocab * (perRow * blockBytes))
    (hvalues : data = (chunksExact blockBytes wire).flatMap fun chunk =>
      (superValues dequantBlock chunk).toList) (out : List F32) (values : Vector F32 256)
    (tokenId : Nat) :
    ∃ values', kquantRow vocab perRow (perRow * blockBytes) blockBytes wire dequantBlock
      (out, values) tokenId =
        (selectRow data vocab (256 * perRow) tokenId).map fun row => (out ++ row, values') := by
  by_cases hlt : tokenId < vocab
  · have hrow : tokenId * (perRow * blockBytes) + perRow * blockBytes ≤ wire.length := by
      rw [hwire]
      exact Rows.row_le hlt
    have hchunks : tokenId * perRow + perRow ≤ wire.length / blockBytes := by
      rw [hwire, ← Nat.mul_assoc, Nat.mul_div_cancel _ hpos]
      exact Rows.row_le hlt
    have hlength : ((wire.drop (tokenId * (perRow * blockBytes))).take
        (perRow * blockBytes)).length = perRow * blockBytes := by
      rw [List.length_take, List.length_drop]
      omega
    obtain ⟨values', hloop⟩ := Outcome.foldlM_gathers
      (fun b hb => gatherBlock_eq hover hlength (List.mem_range.mp hb)) out values
    refine ⟨values', ?_⟩
    unfold kquantRow CpuTensor.tokenIdx
    rw [if_pos hlt, Outcome.ok_bind, Rows.row, Rows.slice_of_le hrow, Outcome.orPanic_some,
      Outcome.ok_bind, selectRow_of_lt hlt, hloop, Outcome.mapM_ok, Outcome.map_ok, Outcome.map_ok,
      hvalues, show tokenId * (256 * perRow) = tokenId * perRow * 256 by ring,
      Nat.mul_comm 256 perRow, Rows.drop_flatMap_blocks (length_superValues dequantBlock),
      Rows.take_flatMap_blocks (length_superValues dequantBlock), ← chunksExact_row hchunks,
      List.flatMap_map, List.flatMap_def]
  · refine ⟨values, ?_⟩
    unfold kquantRow CpuTensor.tokenIdx
    rw [if_neg hlt, selectRow_of_le (Nat.not_lt.mp hlt)]
    rfl

omit [FloatOps] in
theorem mul_of_lt (build : Build) {a b : Nat} (h : a * b < 2 ^ 64) : build.mul a b = .ok (a * b) :=
  Build.mul_eq_ok.mpr (.inl ⟨rfl, h⟩)

omit [FloatOps] in
theorem embeddingLookupKquantWire_eq (build : Build) {blockBytes : Nat}
    {dequantBlock : DequantizeBytes} {wire : List UInt8}
    (hover : Overwrites blockBytes dequantBlock) (hblockBytes : 0 < blockBytes ∧ blockBytes ≤ 256)
    (haligned : 256 ∣ width) (hwidth : width < 2 ^ 64) (hwhole : wire.length % blockBytes = 0)
    (hvalues : data = (chunksExact blockBytes wire).flatMap fun chunk =>
      (superValues dequantBlock chunk).toList) (hdata : data.length = vocab * width)
    (hbound : vocab * width < 2 ^ 64) {tokenIds : List Nat} (name : Str)
    (hids : tokenIds.length < 2 ^ 64) (hfits : tokenIds.length * width * 4 < 2 ^ 63) :
    embeddingLookupKquantWire build tokenIds name vocab width wire blockBytes dequantBlock =
      selectRows data vocab width tokenIds name := by
  obtain ⟨perRow, rfl⟩ := haligned
  have hperRow : 256 * perRow / 256 = perRow := Nat.mul_div_cancel_left _ (by decide)
  have hwire : wire.length = vocab * (perRow * blockBytes) := by
    rw [hvalues, Rows.length_flatMap_blocks (length_superValues dequantBlock), length_chunksExact,
      show vocab * (256 * perRow) = vocab * perRow * 256 by ring] at hdata
    have hcount : wire.length / blockBytes = vocab * perRow :=
      Nat.eq_of_mul_eq_mul_right (by decide) hdata
    have hdiv := Nat.div_add_mod wire.length blockBytes
    rw [hwhole, hcount, Nat.add_zero] at hdiv
    rw [← hdiv]
    ring
  have hrowBytes : perRow * blockBytes ≤ 256 * perRow := by
    rw [Nat.mul_comm 256]
    exact Nat.mul_le_mul_left _ hblockBytes.2
  have hexpected : vocab * (perRow * blockBytes) ≤ vocab * (256 * perRow) :=
    Nat.mul_le_mul_left _ hrowBytes
  obtain ⟨values', hloop⟩ := Outcome.foldlM_gathers
    (fun tokenId (_ : tokenId ∈ tokenIds) out values =>
      kquantRow_eq hover hblockBytes.1 hwire hvalues out values tokenId)
    [] (Vector.replicate 256 0)
  unfold embeddingLookupKquantWire
  rw [if_neg (by omega)]
  dsimp only
  rw [hperRow, mul_of_lt build (by omega), Outcome.ok_bind, checkedMul_eq_some.mpr ⟨rfl, by omega⟩,
    Outcome.okOr_some, Outcome.ok_bind, if_neg (not_not.mpr hwire), mul_of_lt build (by omega),
    Outcome.ok_bind, withCapacity_eq_ok.mpr hfits, Outcome.ok_bind, hloop,
    ← fromF32_selectRow hdata name hids (by omega)]
  rcases tokenIds.mapM (selectRow data vocab (256 * perRow)) with rows | e | k
  · rfl
  · rfl
  · rfl

/-- A table keeps the bytes of its elements as Q8_0 blocks or as they are on the wire; `decode`
is the full decoder of its storage type, and `blockValues` how many values a block has. -/
inductive Backed (build : Build) (tensor : CpuTensor) (bytes : List UInt8) (elements : Nat) :
    (decode : Str → List UInt8 → Nat → EngineResult (List F32)) → (blockValues : Nat) → Prop
  | q8_0 {label : Str} {blocks : List Q8_0Block} (htype : tensor.sourceType = some .Q8_0)
      (hblocks : tensor.q8_0Blocks = some blocks)
      (hdecoded : build.decodeQ8_0Blocks label bytes elements = .ok blocks) :
      Backed build tensor bytes elements build.decodeQ8_0Tensor 32
  | q4K (hblocks : tensor.q8_0Blocks = none) (hwire : tensor.q4KWireBytes = some bytes) :
      Backed build tensor bytes elements decodeQ4KTensor 256
  | q5K (hblocks : tensor.q8_0Blocks = none) (hq4K : tensor.q4KWireBytes = none)
      (hwire : tensor.q5KWireBytes = some bytes) :
      Backed build tensor bytes elements decodeQ5KTensor 256
  | q6K (hblocks : tensor.q8_0Blocks = none) (hq4K : tensor.q4KWireBytes = none)
      (hq5K : tensor.q5KWireBytes = none) (hwire : tensor.q6KWireBytes = some bytes) :
      Backed build tensor bytes elements decodeQ6KTensor 256

theorem embeddingLookup_of_dims (build : Build) {tensor : CpuTensor}
    (hdims : tensor.dims = [vocab, width]) (tokenIds : List Nat) (name : Str) :
    embeddingLookup build tensor tokenIds name =
      match tensor.q8_0Blocks, tensor.q4KWireBytes, tensor.q5KWireBytes, tensor.q6KWireBytes with
      | some blocks, _, _, _ =>
        embeddingLookupQ8_0BlockBacked tensor tokenIds name vocab width blocks
      | none, some wire, _, _ =>
        embeddingLookupKquantWire build tokenIds name vocab width wire 144 Q4KBlock.dequantizeBytes
      | none, none, some wire, _ =>
        embeddingLookupKquantWire build tokenIds name vocab width wire 176 Q5KBlock.dequantizeBytes
      | none, none, none, some wire =>
        embeddingLookupKquantWire build tokenIds name vocab width wire 210 Q6KBlock.dequantizeBytes
      | none, none, none, none => embeddingLookupData tensor tokenIds name vocab width := by
  unfold embeddingLookup requireRank CpuTensor.dim
  rw [hdims]
  rfl

/-- The values of a decoded table, by its storage type. -/
theorem decodeQ8_0Tensor_eq {build : Build} {label label' : Str} {bytes : List UInt8}
    {elements : Nat} {blocks : List Q8_0Block}
    (hblocks : build.decodeQ8_0Blocks label bytes elements = .ok blocks)
    (h : build.decodeQ8_0Tensor label' bytes elements = .ok data) :
    data = blocks.flatMap Q8_0Block.dequantize := by
  have hchunks : ∀ {label : Str} {blocks : List Q8_0Block},
      build.decodeQ8_0Blocks label bytes elements = .ok blocks →
      blocks = (chunksExact 34 bytes).map Q8_0Block.ofBytes := by
    intro label blocks h
    unfold Build.decodeQ8_0Blocks at h
    split at h
    · exact absurd h (by simp)
    obtain ⟨expectedBytes, -, h⟩ := Outcome.bind_eq_ok.mp h
    split at h
    · exact absurd h (by simp)
    exact (Outcome.ok.inj (Outcome.check_eq_ok.mp h).2).symm
  obtain ⟨blocks', hblocks', h⟩ := Outcome.bind_eq_ok.mp h
  obtain ⟨-, h⟩ := Outcome.check_eq_ok.mp h
  rw [← Outcome.ok.inj h, hchunks hblocks', hchunks hblocks]

/-- The storage types one by one. -/
theorem embeddingLookup_backed {build : Build} {tensor : CpuTensor} {bytes : List UInt8}
    {decode : Str → List UInt8 → Nat → EngineResult (List F32)} {blockValues : Nat} {label : Str}
    (hdims : tensor.dims = [vocab, width]) (hwidth : width < 2 ^ 64)
    (hbacked : Backed build tensor bytes (vocab * width) decode blockValues)
    (hdecoded : decode label bytes (vocab * width) = .ok data)
    (hdata : data.length = vocab * width) {tokenIds : List Nat} (hids : tokenIds.length < 2 ^ 64)
    (name : Str) :
    (width % blockValues = 0 → tokenIds.length * width * 4 < 2 ^ 63 →
      embeddingLookup build tensor tokenIds name = selectRows data vocab width tokenIds name) ∧
    (width % blockValues ≠ 0 →
      ∃ message, embeddingLookup build tensor tokenIds name = .err (.ShapeMismatch message)) := by
  rw [embeddingLookup_of_dims build hdims]
  -- the three formats that are kept as wire bytes go through one function
  have hwire : ∀ {label' : String} {blockBytes : Nat} {dequantBlock : DequantizeBytes},
      Overwrites blockBytes dequantBlock → 0 < blockBytes ∧ blockBytes ≤ 256 →
      decodeSuperBlocks label' blockBytes dequantBlock label bytes (vocab * width) = .ok data →
      (width % 256 = 0 → tokenIds.length * width * 4 < 2 ^ 63 →
        embeddingLookupKquantWire build tokenIds name vocab width bytes blockBytes dequantBlock =
          selectRows data vocab width tokenIds name) ∧
      (width % 256 ≠ 0 → ∃ message,
        embeddingLookupKquantWire build tokenIds name vocab width bytes blockBytes dequantBlock =
          .err (.ShapeMismatch message)) := by
    intro label' blockBytes dequantBlock hover hblockBytes hdecoded
    obtain ⟨hreserved, hwhole, hvalues⟩ := decodeSuperBlocks_eq_ok hover hdecoded
    constructor
    · intro haligned hfits
      exact embeddingLookupKquantWire_eq build hover hblockBytes (Nat.dvd_of_mod_eq_zero haligned)
        hwidth hwhole hvalues hdata (by omega) name hids hfits
    · intro hmisaligned
      unfold embeddingLookupKquantWire
      rw [if_pos hmisaligned]
      exact ⟨_, rfl⟩
  cases hbacked with
  | q8_0 htype hblocks hblocksDecoded =>
    rw [hblocks]
    dsimp only
    have hvalues := decodeQ8_0Tensor_eq hblocksDecoded hdecoded
    obtain ⟨blocks, -, hreserved⟩ := Outcome.bind_eq_ok.mp hdecoded
    have hfit := withCapacity_eq_ok.mp (Outcome.check_eq_ok.mp hreserved).1
    constructor
    · intro haligned hfits
      exact embeddingLookupQ8_0BlockBacked_eq htype (Nat.dvd_of_mod_eq_zero haligned) hvalues hdata
        (by omega) name hids hfits
    · intro hmisaligned
      unfold embeddingLookupQ8_0BlockBacked
      rw [if_neg (not_not.mpr htype), if_pos hmisaligned]
      exact ⟨_, rfl⟩
  | q4K hblocks hq4K =>
    rw [hblocks, hq4K]
    exact hwire Q4KBlock.overwrites (by decide) hdecoded
  | q5K hblocks hq4K hq5K =>
    rw [hblocks, hq4K, hq5K]
    exact hwire Q5KBlock.overwrites (by decide) hdecoded
  | q6K hblocks hq4K hq5K hq6K =>
    rw [hblocks, hq4K, hq5K, hq6K]
    exact hwire Q6KBlock.overwrites (by decide) hdecoded

omit [FloatOps] in
/-- A selection is refused where an id is past the vocabulary, and nowhere else. -/
theorem selectRows_eq_err {tokenIds : List Nat} {name : Str} :
    (∃ e, selectRows data vocab width tokenIds name = .err e) ↔ ∃ id ∈ tokenIds, vocab ≤ id := by
  constructor
  · rintro ⟨e, he⟩
    by_contra hnone
    have hall : ∀ id ∈ tokenIds, selectRow data vocab width id =
        .ok ((data.drop (id * width)).take width) :=
      fun id hid => selectRow_of_lt (Nat.lt_of_not_le fun hle => hnone ⟨id, hid, hle⟩)
    unfold selectRows at he
    rw [Outcome.mapM_congr hall, Outcome.mapM_ok] at he
    exact absurd he (by simp)
  · rintro ⟨id, hid, hle⟩
    unfold selectRows
    induction tokenIds with
    | nil => exact absurd hid (by simp)
    | cons first rest ih =>
      rw [Outcome.mapM_cons]
      by_cases hfirst : vocab ≤ first
      · rw [selectRow_of_le hfirst]
        exact ⟨_, rfl⟩
      · have hrest : id ∈ rest := by
          rcases List.mem_cons.mp hid with rfl | hrest
          · exact absurd hle hfirst
          · exact hrest
        obtain ⟨e, he⟩ := ih hrest
        refine ⟨e, ?_⟩
        rw [selectRow_of_lt (Nat.lt_of_not_le hfirst), Outcome.ok_bind]
        rcases hrows : rest.mapM (selectRow data vocab width) with rows | e' | k
        · rw [hrows] at he
          exact absurd he (by simp)
        · rw [hrows] at he
          exact he
        · rw [hrows] at he
          exact absurd he (by simp)

/-- A gather through blocks or wire bytes selects rows of the full decoding, and refuses the
ids past the vocabulary and no others. A row that does not end with a block is refused
whatever is asked for. -/
theorem embeddingLookup_selects {build : Build} {tensor : CpuTensor} {bytes : List UInt8}
    {decode : Str → List UInt8 → Nat → EngineResult (List F32)} {blockValues : Nat} {label : Str}
    (hdims : tensor.dims = [vocab, width]) (hwidth : width < 2 ^ 64)
    (hbacked : Backed build tensor bytes (vocab * width) decode blockValues)
    (hdecoded : decode label bytes (vocab * width) = .ok data)
    (hdata : data.length = vocab * width) {tokenIds : List Nat} (hids : tokenIds.length < 2 ^ 64)
    (name : Str) :
    (width % blockValues = 0 → tokenIds.length * width * 4 < 2 ^ 63 →
      embeddingLookup build tensor tokenIds name = selectRows data vocab width tokenIds name ∧
      ((∃ e, embeddingLookup build tensor tokenIds name = .err e) ↔ ∃ id ∈ tokenIds, vocab ≤ id)) ∧
    (width % blockValues ≠ 0 →
      ∃ message, embeddingLookup build tensor tokenIds name = .err (.ShapeMismatch message)) := by
  have hbackedLookup := embeddingLookup_backed hdims hwidth hbacked hdecoded hdata hids name
  refine ⟨fun haligned hfits => ?_, hbackedLookup.2⟩
  have hselects := hbackedLookup.1 haligned hfits
  exact ⟨hselects, hselects ▸ selectRows_eq_err⟩

end Gather

end Floats

-- ---------------------------------------------------------------------------
-- Two tables
-- ---------------------------------------------------------------------------

section Samples

attribute [local instance] residueOps

/-- A table of zeros, of one Q8_0 block for each 32 elements. -/
def zeroTable (vocab width : Nat) : CpuTensor where
  name := ['w']
  dims := [vocab, width]
  sourceType := some .Q8_0
  q8_0Blocks := some (List.replicate (vocab * width / 32) ⟨0, Vector.replicate 32 0⟩)
  q4KWireBytes := none
  q5KWireBytes := none
  q6KWireBytes := none
  data := []

theorem zeroTable_backed {vocab width : Nat} (h : vocab * width = 64 ∨ vocab * width = 32) :
    Gather.Backed .release (zeroTable vocab width) (List.replicate (vocab * width / 32 * 34) 0)
      (vocab * width) Build.release.decodeQ8_0Tensor 32 := by
  have hblocks : Build.release.decodeQ8_0Blocks [] (List.replicate (vocab * width / 32 * 34) 0)
      (vocab * width) = .ok (List.replicate (vocab * width / 32) ⟨0, Vector.replicate 32 0⟩) := by
    rcases h with h | h
    · rw [h]
      decide +kernel
    · rw [h]
      decide +kernel
  exact .q8_0 rfl rfl hblocks

/-- The wire bytes of a row of 32 equal numbers in Q8_0. -/
def q8_0Row (value : UInt8) : List UInt8 := [0x00, 0x3C] ++ List.replicate 32 value

/-- The wire bytes of a row of 256 equal numbers in Q4_K: every scale is 1, every minimum 0. -/
def q4KRow (nibbles : UInt8) : List UInt8 :=
  [0x00, 0x3C, 0, 0, 1, 1, 1, 1, 0, 0, 0, 0, 1, 1, 1, 1] ++ List.replicate 128 nibbles

/-- A row of ones over a row of twos. -/
def twoRows (width : Nat) : List F32 :=
  List.replicate width (F32.ofInt 1) ++ List.replicate width (F32.ofInt 2)

theorem length_twoRows (width : Nat) : (twoRows width).length = 2 * width := by
  simp [twoRows, two_mul]

def q8_0Table : CpuTensor :=
  { zeroTable 2 32 with
    q8_0Blocks := some [⟨F32.ofInt 1, Vector.replicate 32 1⟩, ⟨F32.ofInt 1, Vector.replicate 32 2⟩] }

def q4KTable : CpuTensor :=
  { zeroTable 2 256 with
    sourceType := some .Q4K
    q8_0Blocks := none
    q4KWireBytes := some (q4KRow 0x11 ++ q4KRow 0x22) }

/-- The second row, the first and the second again, out of blocks and out of wire bytes. -/
theorem embeddingLookup_selects_sample :
    Gather.embeddingLookup .release q8_0Table [1, 0, 1] [] =
      selectRows (twoRows 32) 2 32 [1, 0, 1] [] ∧
    Gather.embeddingLookup .release q4KTable [1, 0, 1] [] =
      selectRows (twoRows 256) 2 256 [1, 0, 1] [] := by
  have hblocks : Build.release.decodeQ8_0Blocks [] (q8_0Row 1 ++ q8_0Row 2) (2 * 32) =
      .ok [⟨F32.ofInt 1, Vector.replicate 32 1⟩, ⟨F32.ofInt 1, Vector.replicate 32 2⟩] := by
    decide +kernel
  have hvalues : Build.release.decodeQ8_0Tensor [] (q8_0Row 1 ++ q8_0Row 2) (2 * 32) =
      .ok (twoRows 32) := by decide +kernel
  have hwire : Gather.decodeQ4KTensor [] (q4KRow 0x11 ++ q4KRow 0x22) (2 * 256) =
      .ok (twoRows 256) := by decide +kernel
  exact ⟨((Gather.embeddingLookup_selects rfl (by decide) (.q8_0 rfl rfl hblocks) hvalues
      (length_twoRows 32) (by decide) []).1 (by decide) (by decide)).1,
    ((Gather.embeddingLookup_selects rfl (by decide) (.q4K rfl rfl) hwire
      (length_twoRows 256) (by decide) []).1 (by decide) (by decide)).1⟩

/-- Two rows of 16 share one block: the full decoder has both of them, and no row is
handed out. -/
theorem embeddingLookup_halfBlock :
    Build.release.decodeQ8_0Tensor [] (List.replicate 34 0) (2 * 16) = .ok (List.replicate 32 0) ∧
    Gather.Backed .release (zeroTable 2 16) (List.replicate 34 0) (2 * 16)
      Build.release.decodeQ8_0Tensor 32 ∧
    (∀ id ∈ [0], id < 2) ∧
    Gather.embeddingLookup .release (zeroTable 2 16) [0] [] ≠
      selectRows (List.replicate 32 0) 2 16 [0] [] := by
  refine ⟨by decide +kernel, zeroTable_backed (.inr rfl), by decide, ?_⟩
  intro h
  have hselected : selectRows (List.replicate 32 0) 2 16 [0] [] =
      .ok (plainMatrix [] 1 16 (List.replicate 16 0)) := by decide +kernel
  rw [hselected, Gather.embeddingLookup_of_dims .release rfl] at h
  exact absurd h (by simp [zeroTable, Gather.embeddingLookupQ8_0BlockBacked])

end Samples

end CamelidEnterprise

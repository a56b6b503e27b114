import CamelidEnterprise.Engine.Orientation

/-!
# Camelid Enterprise — binder and loader on shapes

`LlamaTensorBinding::bind` checks the declared shapes of a header, `LlamaWeights::load`
reads the tensors and gives the token embedding the shape of a lookup table, and
`LlamaWeights::validate_dense_shapes` checks what was read.

Key results: `table_handsOut`, which rows a loaded table hands out, and
`bind_load_agree_iff`, when the two agree.
-/

namespace CamelidEnterprise

open Foundation Gguf

-- ---------------------------------------------------------------------------
-- Lookups
-- ---------------------------------------------------------------------------

theorem elementCount_pair {a b n : Nat} (ha : a < 2 ^ 64) :
    elementCount [a, b] = .ok n ↔ n = a * b ∧ a * b < 2 ^ 64 := by
  unfold elementCount
  have hfirst : checkedMul 1 a = some a := checkedMul_eq_some.mpr ⟨by omega, by omega⟩
  rw [List.foldlM_cons, hfirst, Outcome.okOr_some, Outcome.ok_bind, List.foldlM_cons]
  constructor
  · intro h
    obtain ⟨product, hproduct, h⟩ := Outcome.bind_eq_ok.mp h
    obtain rfl := Outcome.ok.inj h
    exact checkedMul_eq_some.mp (Outcome.okOr_eq_ok.mp hproduct)
  · rintro ⟨rfl, hlt⟩
    have hsecond : checkedMul a b = some (a * b) := checkedMul_eq_some.mpr ⟨rfl, hlt⟩
    rw [hsecond]
    rfl

/-- A matrix of plain values. -/
def plainMatrix (name : Str) (rows cols : Nat) (data : List F32) : CpuTensor :=
  { name, dims := [rows, cols], sourceType := none, q8_0Blocks := none, q4KWireBytes := none
    q5KWireBytes := none, q6KWireBytes := none, data }

theorem fromF32_pair {name : Str} {rows cols : Nat} {data : List F32} {out : CpuTensor}
    (hrows : rows < 2 ^ 64) (hdata : data.length = rows * cols) :
    CpuTensor.fromF32 name [rows, cols] data = .ok out ↔
      rows * cols < 2 ^ 64 ∧ out = plainMatrix name rows cols data := by
  constructor
  · intro h
    obtain ⟨count, hcount, h⟩ := Outcome.bind_eq_ok.mp h
    obtain ⟨-, hlt⟩ := (elementCount_pair hrows).mp hcount
    split at h
    · exact absurd h (by simp)
    · exact ⟨hlt, (Outcome.ok.inj h).symm⟩
  · rintro ⟨hlt, rfl⟩
    unfold CpuTensor.fromF32
    rw [(elementCount_pair hrows).mpr ⟨rfl, hlt⟩, Outcome.ok_bind, if_neg (by simp [hdata])]
    rfl

/-- The rows of a table are handed out by their numbers, and nothing else is. -/
def HandsOut (lookup : List Nat → Str → EngineResult CpuTensor) (vocab width : Nat)
    (row : Nat → List F32) : Prop :=
  ∀ (ids : List Nat) (name : Str), ids.length < 2 ^ 64 → ∀ out, lookup ids name = .ok out ↔
    (∀ id ∈ ids, id < vocab) ∧ ids.length * width * 4 < 2 ^ 63 ∧
      out = plainMatrix name ids.length width (ids.flatMap row)

theorem length_flatMap_rows {row : Nat → List F32} {width : Nat} {ids : List Nat}
    (h : ∀ id ∈ ids, (row id).length = width) : (ids.flatMap row).length = ids.length * width := by
  induction ids with
  | nil => simp
  | cons id ids ih =>
    rw [List.flatMap_cons, List.length_append, ih fun id hid => h id (List.mem_cons_of_mem _ hid),
      h id List.mem_cons_self, List.length_cons, Nat.succ_mul, Nat.add_comm]

/-- The loop of a lookup, when it fetches each row below the bound and fails on any
other. -/
theorem gather_eq_ok {fetch : Nat → EngineResult (List F32)} {vocab width : Nat}
    {row : Nat → List F32} (hrow : ∀ id < vocab, fetch id = .ok (row id))
    (hwidth : ∀ id < vocab, (row id).length = width)
    (hout : ∀ id, vocab ≤ id → ∀ found, fetch id ≠ .ok found) {ids : List Nat} {name : Str}
    {out : CpuTensor} (hids : ids.length < 2 ^ 64) :
    (do
      let rows ← ids.mapM fetch
      CpuTensor.fromF32 name [ids.length, width] rows.flatten) = .ok out ↔
      (∀ id ∈ ids, id < vocab) ∧ ids.length * width < 2 ^ 64 ∧
        out = plainMatrix name ids.length width (ids.flatMap row) := by
  by_cases hall : ∀ id ∈ ids, id < vocab
  · have hfetch : ids.mapM fetch = .ok (ids.map row) := by
      rw [Outcome.mapM_congr fun id hid => hrow id (hall id hid), Outcome.mapM_ok]
    have hlength : (ids.map row).flatten.length = ids.length * width := by
      rw [← List.flatMap_def]
      exact length_flatMap_rows fun id hid => hwidth id (hall id hid)
    rw [hfetch, Outcome.ok_bind, fromF32_pair hids hlength, List.flatMap_def]
    exact ⟨fun h => ⟨hall, h⟩, fun h => h.2⟩
  · constructor
    · intro h
      obtain ⟨rows, hrows, -⟩ := Outcome.bind_eq_ok.mp h
      obtain ⟨id, hid⟩ := not_forall.mp hall
      obtain ⟨hmem, hlt⟩ := Classical.not_imp.mp hid
      obtain ⟨found, hfound⟩ := Outcome.mem_of_mapM hrows hmem
      exact absurd hfound (hout id (Nat.le_of_not_lt hlt) found)
    · rintro ⟨hall', -⟩
      exact absurd hall' hall

/-- The loop into a buffer that was reserved for the rows. -/
theorem reserved_gather_eq_ok {fetch : Nat → EngineResult (List F32)} {vocab width : Nat}
    {row : Nat → List F32} (hrow : ∀ id < vocab, fetch id = .ok (row id))
    (hwidth : ∀ id < vocab, (row id).length = width)
    (hout : ∀ id, vocab ≤ id → ∀ found, fetch id ≠ .ok found) {ids : List Nat} {name : Str}
    {out : CpuTensor} (hids : ids.length < 2 ^ 64) :
    (do
      withCapacity (ids.length * width) 4
      let rows ← ids.mapM fetch
      CpuTensor.fromF32 name [ids.length, width] rows.flatten) = .ok out ↔
      (∀ id ∈ ids, id < vocab) ∧ ids.length * width * 4 < 2 ^ 63 ∧
        out = plainMatrix name ids.length width (ids.flatMap row) := by
  by_cases hfits : ids.length * width * 4 < 2 ^ 63
  · rw [withCapacity_eq_ok.mpr hfits, Outcome.ok_bind, gather_eq_ok hrow hwidth hout hids]
    constructor
    · rintro ⟨hall, -, hgathered⟩
      exact ⟨hall, hfits, hgathered⟩
    · rintro ⟨hall, -, hgathered⟩
      exact ⟨hall, by omega, hgathered⟩
  · constructor
    · intro h
      obtain ⟨_, hcapacity, -⟩ := Outcome.bind_eq_ok.mp h
      exact absurd (withCapacity_eq_ok.mp hcapacity) hfits
    · rintro ⟨-, hfits', -⟩
      exact absurd hfits' hfits

section Tables

variable [FloatOps] {tensor : CpuTensor} {vocab width : Nat}

/-- Row `r` of the values of a tensor. -/
def CpuTensor.valueRow (tensor : CpuTensor) (width r : Nat) : List F32 :=
  (tensor.values.drop (r * width)).take width

theorem CpuTensor.length_valueRow {r : Nat} (hcount : tensor.values.length = vocab * width)
    (hr : r < vocab) : (tensor.valueRow width r).length = width := by
  have hrow := Rows.row_le (w := width) hr
  unfold valueRow
  rw [List.length_take, List.length_drop]
  omega

/-- A row of values of a table of blocks is a row of its blocks. -/
theorem CpuTensor.valueRow_blocks {blocks : List Q8_0Block} {perRow : Nat}
    (hblocks : tensor.q8_0Blocks = some blocks) (hwidth : width = perRow * 32) (r : Nat) :
    tensor.valueRow width r =
      ((blocks.drop (r * perRow)).take perRow).flatMap Q8_0Block.dequantize := by
  unfold valueRow values
  rw [hblocks, hwidth, ← Nat.mul_assoc]
  dsimp only
  rw [Rows.drop_flatMap_blocks Q8_0Block.length_dequantize,
    Rows.take_flatMap_blocks Q8_0Block.length_dequantize]

/-- A table of blocks. -/
theorem embeddingLookupQ8_0_handsOut {blocks : List Q8_0Block}
    (hblocks : tensor.q8_0Blocks = some blocks) (htype : tensor.sourceType = some .Q8_0)
    (haligned : 32 ∣ width) (hcount : tensor.values.length = vocab * width)
    (hbound : vocab * width < 2 ^ 64) :
    HandsOut (fun ids name => tensor.embeddingLookupQ8_0BlockBacked ids name vocab width blocks)
      vocab width (tensor.valueRow width) := by
  have hvalues : tensor.values = blocks.flatMap Q8_0Block.dequantize := by
    unfold CpuTensor.values
    rw [hblocks]
  -- a row is `perRow` whole blocks, so the lookup's checks of the table pass
  obtain ⟨perRow, rfl⟩ := haligned
  have hperRow : 32 * perRow / 32 = perRow := Nat.mul_div_cancel_left _ (by decide)
  have hblockCount : blocks.length = vocab * perRow := by
    rw [hvalues, Rows.length_flatMap_blocks Q8_0Block.length_dequantize, Nat.mul_comm 32 perRow,
      ← Nat.mul_assoc] at hcount
    exact Nat.eq_of_mul_eq_mul_right (by decide) hcount
  have hexpected : checkedMul vocab perRow = some (vocab * perRow) := by
    rw [checkedMul_eq_some]
    refine ⟨rfl, ?_⟩
    have hle : vocab * perRow ≤ vocab * (32 * perRow) := Nat.mul_le_mul_left _ (by omega)
    omega
  intro ids name hids out
  dsimp only
  unfold CpuTensor.embeddingLookupQ8_0BlockBacked
  rw [if_neg (not_not.mpr htype), if_neg (by omega)]
  dsimp only
  rw [hperRow, hexpected, Outcome.okOr_some, Outcome.ok_bind, if_neg (by simp [hblockCount])]
  by_cases hfits : ids.length * (32 * perRow) < 2 ^ 64
  · have hchecked : checkedMul ids.length (32 * perRow) = some (ids.length * (32 * perRow)) :=
      checkedMul_eq_some.mpr ⟨rfl, hfits⟩
    rw [hchecked, Outcome.okOr_some, Outcome.ok_bind]
    refine reserved_gather_eq_ok ?_ ?_ ?_ hids
    · intro id hid
      have hstart : checkedMul id perRow = some (id * perRow) := by
        rw [checkedMul_eq_some]
        refine ⟨rfl, ?_⟩
        have hle : id * perRow ≤ vocab * perRow := Nat.mul_le_mul_right _ (Nat.le_of_lt hid)
        have hle' : vocab * perRow ≤ vocab * (32 * perRow) := Nat.mul_le_mul_left _ (by omega)
        omega
      have hle : id * perRow + perRow ≤ blocks.length := by
        rw [hblockCount]
        exact Rows.row_le hid
      have hvalueRow := CpuTensor.valueRow_blocks hblocks (Nat.mul_comm 32 perRow) id
      rw [CpuTensor.tokenIdx, if_pos hid, Outcome.ok_bind, hstart, Outcome.okOr_some, Outcome.ok_bind,
        Rows.row, Rows.slice_of_le hle, hvalueRow]
      rfl
    · intro id hid
      exact CpuTensor.length_valueRow hcount hid
    · intro id hid found hfound
      rw [CpuTensor.tokenIdx, if_neg (Nat.not_lt.mpr hid)] at hfound
      exact absurd hfound (by simp)
  · constructor
    · intro h
      obtain ⟨product, hproduct, -⟩ := Outcome.bind_eq_ok.mp h
      exact absurd (checkedMul_eq_some.mp (Outcome.okOr_eq_ok.mp hproduct)).2 hfits
    · rintro ⟨-, hfits', -⟩
      omega

/-- A table of plain values. -/
theorem embeddingLookupData_handsOut (hblocks : tensor.q8_0Blocks = none)
    (hcount : tensor.values.length = vocab * width) (hbound : vocab * width < 2 ^ 64) :
    HandsOut (fun ids name => tensor.embeddingLookupData ids name vocab width)
      vocab width (tensor.valueRow width) := by
  have hvalues : tensor.values = tensor.data := by
    unfold CpuTensor.values
    rw [hblocks]
  intro ids name hids out
  dsimp only
  unfold CpuTensor.embeddingLookupData
  by_cases hfits : ids.length * width < 2 ^ 64
  · have hchecked : checkedMul ids.length width = some (ids.length * width) :=
      checkedMul_eq_some.mpr ⟨rfl, hfits⟩
    rw [hchecked, Outcome.okOr_some, Outcome.ok_bind]
    refine reserved_gather_eq_ok ?_ ?_ ?_ hids
    · intro id hid
      have hrow := Rows.row_le (w := width) hid
      have hstart : checkedMul id width = some (id * width) :=
        checkedMul_eq_some.mpr ⟨rfl, by omega⟩
      have hle : id * width + width ≤ tensor.data.length := by
        rw [← hvalues, hcount]
        exact hrow
      rw [CpuTensor.tokenIdx, if_pos hid, Outcome.ok_bind, hstart, Outcome.okOr_some, Outcome.ok_bind,
        if_pos (by omega), Rows.slice_of_le hle, CpuTensor.valueRow, hvalues]
      rfl
    · intro id hid
      exact CpuTensor.length_valueRow hcount hid
    · intro id hid found hfound
      rw [CpuTensor.tokenIdx, if_neg (Nat.not_lt.mpr hid)] at hfound
      exact absurd hfound (by simp)
  · constructor
    · intro h
      obtain ⟨product, hproduct, -⟩ := Outcome.bind_eq_ok.mp h
      exact absurd (checkedMul_eq_some.mp (Outcome.okOr_eq_ok.mp hproduct)).2 hfits
    · rintro ⟨-, hfits', -⟩
      omega

omit [FloatOps] in
/-- The blocks of a row, cut out of the whole buffer or out of the row. -/
theorem chunksExact_row {α : Type} {xs : List α} {size perRow r : Nat}
    (h : r * perRow + perRow ≤ xs.length / size) :
    (List.range perRow).map (fun b =>
        (((xs.drop (r * (perRow * size))).take (perRow * size)).drop (b * size)).take size) =
      ((chunksExact size xs).drop (r * perRow)).take perRow := by
  unfold chunksExact
  apply List.ext_getElem?
  intro b
  by_cases hb : b < perRow
  · rw [List.getElem?_map, List.getElem?_range hb, List.getElem?_take_of_lt hb,
      List.getElem?_drop, List.getElem?_map, List.getElem?_range (by omega)]
    refine congrArg some ?_
    dsimp only
    have hend : b * size + size ≤ perRow * size := Rows.row_le hb
    have hstart : r * (perRow * size) + b * size = (r * perRow + b) * size := by ring
    rw [List.drop_take, List.take_take, List.drop_drop, hstart, Nat.min_eq_left (by omega)]
  · rw [List.getElem?_eq_none (by simp; omega), List.getElem?_eq_none (by simp; omega)]

/-- A table of blocks of another format, with the wire bytes they were decoded from. -/
theorem embeddingLookupKquantWire_handsOut {wire : List UInt8} {blockBytes : Nat}
    {dequantBlock : List UInt8 → EngineResult (List F32)}
    (hdecodes : Decodes dequantBlock blockBytes 256) (hblocks : tensor.q8_0Blocks = none)
    {label : String} {source : Str}
    (hdata : decodeBlocks label blockBytes dequantBlock source wire = .ok tensor.data)
    (hblockBytes : 0 < blockBytes ∧ blockBytes ≤ 256) (haligned : 256 ∣ width) (hwidth : width < 2 ^ 64)
    (hwire : wire.length = vocab * (width / 256 * blockBytes)) (hbound : vocab * width < 2 ^ 64) :
    HandsOut (fun ids name =>
        CpuTensor.embeddingLookupKquantWire ids name vocab width wire blockBytes dequantBlock)
      vocab width (tensor.valueRow width) := by
  obtain ⟨values, hblockLength, hblockValues⟩ := hdecodes.values
  have hdata := decodeBlocks_eq_ok hblockValues hdata
  have hvalues : tensor.values = tensor.data := by
    unfold CpuTensor.values
    rw [hblocks]
  obtain ⟨perRow, rfl⟩ := haligned
  have hperRow : 256 * perRow / 256 = perRow := Nat.mul_div_cancel_left _ (by decide)
  rw [hperRow] at hwire
  have hchunks : (chunksExact blockBytes wire).length = vocab * perRow := by
    rw [length_chunksExact, hwire, ← Nat.mul_assoc, Nat.mul_div_cancel _ hblockBytes.1]
  have hcount : tensor.values.length = vocab * (256 * perRow) := by
    rw [hvalues, hdata, Rows.length_flatMap_blocks hblockLength, hchunks]
    ring
  have hrowBytes : perRow * blockBytes ≤ 256 * perRow := by
    rw [Nat.mul_comm 256]
    exact Nat.mul_le_mul_left _ hblockBytes.2
  have hrow : plainMul perRow blockBytes = .ok (perRow * blockBytes) :=
    plainMul_eq_ok.mpr ⟨rfl, by omega⟩
  have hexpected : checkedMul vocab (perRow * blockBytes) = some (vocab * (perRow * blockBytes)) := by
    rw [checkedMul_eq_some]
    have hle : vocab * (perRow * blockBytes) ≤ vocab * (256 * perRow) :=
      Nat.mul_le_mul_left _ hrowBytes
    exact ⟨rfl, by omega⟩
  intro ids name hids out
  dsimp only
  unfold CpuTensor.embeddingLookupKquantWire
  rw [if_neg (by omega)]
  dsimp only
  rw [hperRow, hrow, Outcome.ok_bind, hexpected, Outcome.okOr_some, Outcome.ok_bind,
    if_neg (not_not.mpr hwire)]
  -- where the number of output elements overflows there is none, on either side
  by_cases hfits : ids.length * (256 * perRow) < 2 ^ 64
  swap
  · constructor
    · intro h
      obtain ⟨product, hproduct, -⟩ := Outcome.bind_eq_ok.mp h
      exact absurd (plainMul_eq_ok.mp hproduct).2 hfits
    · rintro ⟨-, hfits', -⟩
      omega
  rw [plainMul_eq_ok.mpr ⟨rfl, hfits⟩, Outcome.ok_bind]
  refine reserved_gather_eq_ok ?_ ?_ ?_ hids
  · intro id hid
    have hle : id * (perRow * blockBytes) + perRow * blockBytes ≤ wire.length := by
      rw [hwire]
      exact Rows.row_le hid
    have hchunkRow : id * perRow + perRow ≤ wire.length / blockBytes := by
      rw [← length_chunksExact, hchunks]
      exact Rows.row_le hid
    rw [CpuTensor.tokenIdx, if_pos hid, Outcome.ok_bind, Rows.row, Rows.slice_of_le hle]
    show (do
      let blocks ← (List.range perRow).mapM fun b => do
        let block ← Outcome.orPanic (Rows.row
          ((wire.drop (id * (perRow * blockBytes))).take (perRow * blockBytes)) blockBytes b)
        dequantBlock block
      .ok blocks.flatten : EngineResult (List F32)) = _
    -- block `b` of the row's bytes is whole, so its decoder returns
    have hfetch : ∀ b ∈ List.range perRow, (do
        let block ← Outcome.orPanic (Rows.row
          ((wire.drop (id * (perRow * blockBytes))).take (perRow * blockBytes)) blockBytes b)
        dequantBlock block : EngineResult (List F32)) =
        .ok (values ((((wire.drop (id * (perRow * blockBytes))).take
          (perRow * blockBytes)).drop (b * blockBytes)).take blockBytes)) := by
      intro b hb
      have hend := Rows.row_le (w := blockBytes) (List.mem_range.mp hb)
      rw [Rows.row, Rows.slice_of_le, Outcome.orPanic_some, Outcome.ok_bind]
      · refine hblockValues _ ?_
        rw [List.length_take, List.length_drop, List.length_take, List.length_drop]
        omega
      · rw [List.length_take, List.length_drop]
        omega
    rw [Outcome.mapM_congr hfetch, Outcome.mapM_ok, Outcome.ok_bind, CpuTensor.valueRow, hvalues,
      hdata, show id * (256 * perRow) = id * perRow * 256 by ring, Nat.mul_comm 256 perRow,
      Rows.drop_flatMap_blocks hblockLength, Rows.take_flatMap_blocks hblockLength,
      ← chunksExact_row hchunkRow, List.flatMap_map, List.flatMap_def]
  · intro id hid
    exact CpuTensor.length_valueRow hcount hid
  · intro id hid found hfound
    rw [CpuTensor.tokenIdx, if_neg (Nat.not_lt.mpr hid)] at hfound
    exact absurd hfound (by simp)

end Tables

-- ---------------------------------------------------------------------------
-- Loaded shapes
-- ---------------------------------------------------------------------------

section Shapes

variable [FloatOps]

omit [FloatOps] in
/-- A name is looked up by its only descriptor. -/
theorem TensorStore.descriptor_of_mem {gguf : GgufFile} (path : String) (file : List UInt8)
    (hunique : (gguf.tensors.map (·.name)).Nodup) {desc : TensorDescriptor}
    (hdesc : desc ∈ gguf.tensors) :
    (TensorStore.ofHeader path file gguf).descriptor desc.name = .ok desc := by
  unfold TensorStore.descriptor TensorStore.ofHeader
  dsimp only
  rw [Outcome.okOr_eq_ok]
  have hsome : (gguf.tensors.reverse.find? fun d => d.name == desc.name).isSome = true := by
    rw [List.find?_isSome]
    exact ⟨desc, by simpa using hdesc, by simp⟩
  obtain ⟨found, hfound⟩ := Option.isSome_iff_exists.mp hsome
  have hname := List.find?_some hfound
  have hmem : found ∈ gguf.tensors := by simpa using List.mem_of_find?_eq_some hfound
  rw [hfound, List.inj_on_of_nodup_map hunique hmem hdesc (by simpa using hname)]

theorem TensorStore.loadCpuF32_dims {store : TensorStore} {desc : TensorDescriptor}
    {tensor : CpuTensor} (hdesc : store.descriptor desc.name = .ok desc)
    (h : store.loadCpuF32 desc.name = .ok tensor) : tensor.dims = desc.dims := by
  obtain ⟨desc', bytes, hdesc', -, hdecoded⟩ := loadCpuF32_decoded h
  obtain rfl := Outcome.ok.inj (hdesc.symm.trans hdesc')
  exact hdecoded.dims_eq

theorem TensorStore.loadLinear_dims {store : TensorStore} {desc : TensorDescriptor}
    {name : Str} {tensor : CpuTensor} (hdesc : store.descriptor desc.name = .ok desc)
    (h : store.loadQ8_0BlockBackedLinearAs desc.name name = .ok tensor) :
    tensor.dims = desc.dims := by
  obtain ⟨desc', bytes, hdesc', -, hstored⟩ := loadLinear_stored h
  obtain rfl := Outcome.ok.inj (hdesc.symm.trans hdesc')
  rcases hstored with ⟨-, hdecoded⟩ | ⟨-, hblocked⟩
  · exact hdecoded.dims_eq
  · exact hblocked.dims_eq

theorem TensorStore.loadLinear_oriented {store : TensorStore} {desc : TensorDescriptor}
    {name : Str} {tensor : CpuTensor} {inputWidth outputWidth : Nat}
    (hdesc : store.descriptor desc.name = .ok desc)
    (h : store.loadQ8_0BlockBackedLinearAs desc.name name = .ok tensor)
    (hshape : desc.Oriented inputWidth outputWidth) : Oriented tensor inputWidth outputWidth := by
  unfold Oriented
  rw [loadLinear_dims hdesc h]
  exact hshape

/-- A layer is loaded in the shapes it was bound in. -/
theorem LlamaLayerWeights.load_shaped {store : TensorStore} {layer : LlamaLayerTensors}
    {dims : DenseLlamaDims} {weights : LlamaLayerWeights}
    (hfound : ∀ desc ∈ layer.descriptors, store.descriptor desc.name = .ok desc)
    (hshaped : layer.Shaped dims) (h : LlamaLayerWeights.load store layer = .ok weights) :
    weights.Shaped dims := by
  obtain ⟨qNorm, hqNorm, h⟩ := Outcome.bind_eq_ok.mp h
  obtain ⟨kNorm, hkNorm, h⟩ := Outcome.bind_eq_ok.mp h
  obtain ⟨attentionNorm, h1, h⟩ := Outcome.bind_eq_ok.mp h
  obtain ⟨attentionQ, h2, h⟩ := Outcome.bind_eq_ok.mp h
  obtain ⟨attentionK, h3, h⟩ := Outcome.bind_eq_ok.mp h
  obtain ⟨attentionV, h4, h⟩ := Outcome.bind_eq_ok.mp h
  obtain ⟨attentionOutput, h5, h⟩ := Outcome.bind_eq_ok.mp h
  obtain ⟨ffnNorm, h6, h⟩ := Outcome.bind_eq_ok.mp h
  obtain ⟨ffnGate, h7, h⟩ := Outcome.bind_eq_ok.mp h
  obtain ⟨ffnUp, h8, h⟩ := Outcome.bind_eq_ok.mp h
  obtain ⟨ffnDown, h9, h⟩ := Outcome.bind_eq_ok.mp h
  obtain rfl := Outcome.ok.inj h
  have hmem : ∀ {desc : TensorDescriptor}, desc ∈ layer.descriptors →
      store.descriptor desc.name = .ok desc := fun {desc} => hfound desc
  have hvector : ∀ {desc : TensorDescriptor} {tensor : CpuTensor} {n : Nat},
      desc ∈ layer.descriptors → store.loadCpuF32 desc.name = .ok tensor → desc.dims = [n] →
      tensor.dims = [n] := by
    intro desc tensor n hdesc hload hdims
    rw [TensorStore.loadCpuF32_dims (hmem hdesc) hload, hdims]
  have hmatrix : ∀ {desc : TensorDescriptor} {tensor : CpuTensor} {m n : Nat},
      desc ∈ layer.descriptors → store.loadQ8_0BlockBackedLinear desc.name = .ok tensor →
      desc.Oriented m n → Oriented tensor m n := by
    intro desc tensor m n hdesc hload
    exact TensorStore.loadLinear_oriented (hmem hdesc) hload
  exact {
    attentionNorm := hvector (by simp [LlamaLayerTensors.descriptors]) h1 hshaped.attentionNorm
    attentionQ := hmatrix (by simp [LlamaLayerTensors.descriptors]) h2 hshaped.attentionQ
    attentionK := hmatrix (by simp [LlamaLayerTensors.descriptors]) h3 hshaped.attentionK
    attentionV := hmatrix (by simp [LlamaLayerTensors.descriptors]) h4 hshaped.attentionV
    attentionOutput := hmatrix (by simp [LlamaLayerTensors.descriptors]) h5 hshaped.attentionOutput
    qkNorms := by
      rcases hshaped.qkNorms with ⟨hq, hk⟩ | ⟨qDesc, kDesc, hq, hk, hqDims, hkDims⟩
      · rw [hq] at hqNorm
        rw [hk] at hkNorm
        exact .inl ⟨(Outcome.ok.inj hqNorm).symm, (Outcome.ok.inj hkNorm).symm⟩
      · rw [hq] at hqNorm
        rw [hk] at hkNorm
        obtain ⟨q, hqLoad, hqSome⟩ := Outcome.bind_eq_ok.mp hqNorm
        obtain ⟨k, hkLoad, hkSome⟩ := Outcome.bind_eq_ok.mp hkNorm
        refine .inr ⟨q, k, (Outcome.ok.inj hqSome).symm, (Outcome.ok.inj hkSome).symm, ?_, ?_⟩
        · exact hvector (by simp [LlamaLayerTensors.descriptors, hq]) hqLoad hqDims
        · exact hvector (by simp [LlamaLayerTensors.descriptors, hk]) hkLoad hkDims
    ffnNorm := hvector (by simp [LlamaLayerTensors.descriptors]) h6 hshaped.ffnNorm
    ffnGate := hmatrix (by simp [LlamaLayerTensors.descriptors]) h7 hshaped.ffnGate
    ffnUp := hmatrix (by simp [LlamaLayerTensors.descriptors]) h8 hshaped.ffnUp
    ffnDown := hmatrix (by simp [LlamaLayerTensors.descriptors]) h9 hshaped.ffnDown }

omit [FloatOps] in
/-- A binding's descriptors are the header's. -/
theorem LlamaTensorBinding.mem_of_bind {gguf : GgufFile} {config : LlamaModelConfig}
    {binding : LlamaTensorBinding} (h : LlamaTensorBinding.bind gguf config = .ok binding)
    {desc : TensorDescriptor} (hdesc : desc ∈ binding.descriptors) : desc ∈ gguf.tensors := by
  obtain ⟨hembedding, hnorm, houtput, -, hrope, -, hlayers, -⟩ := bind_steps h
  unfold descriptors at hdesc
  simp only [List.mem_append, List.mem_cons, List.not_mem_nil, or_false, List.mem_flatMap,
    Option.mem_toList] at hdesc
  rcases hdesc with ((rfl | rfl | rfl) | hdesc) | ⟨layer, hlayer, hdesc⟩
  · exact (GgufFile.findTensor_eq_some hembedding).1
  · exact (GgufFile.findTensor_eq_some hnorm).1
  · rw [houtput]
    rcases hfound : gguf.findTensor "output.weight" with _ | output
    · exact (GgufFile.findTensor_eq_some hembedding).1
    · exact (GgufFile.findTensor_eq_some hfound).1
  · rw [hrope] at hdesc
    exact (GgufFile.findTensor_eq_some hdesc).1
  · obtain ⟨idx, hidx⟩ := List.mem_iff_getElem?.mp hlayer
    obtain ⟨part, -, hpart⟩ := (hlayers idx layer hidx).mem_descriptors.mp hdesc
    exact (GgufFile.findTensor_eq_some hpart).1

-- ---------------------------------------------------------------------------
-- The token embedding
-- ---------------------------------------------------------------------------

/-- The rows of a table of this type come in whole blocks, decoded in full. -/
def RowsFit (ty : TensorType) (width : Nat) : Prop :=
  match ty with
  | .Q8_0 => 32 ∣ width
  | .Q4K | .Q6K => 256 ∣ width
  | .Q5_1 => width = 0
  | _ => True

omit [FloatOps] in
theorem elementCount_lt {a b n : Nat} (h : elementCount [a, b] = .ok n) : a * b < 2 ^ 64 := by
  unfold elementCount at h
  rw [List.foldlM_cons] at h
  obtain ⟨first, hfirst, h⟩ := Outcome.bind_eq_ok.mp h
  obtain ⟨rfl, -⟩ := checkedMul_eq_some.mp (Outcome.okOr_eq_ok.mp hfirst)
  rw [List.foldlM_cons] at h
  obtain ⟨second, hsecond, -⟩ := Outcome.bind_eq_ok.mp h
  have hlt := (checkedMul_eq_some.mp (Outcome.okOr_eq_ok.mp hsecond)).2
  rwa [Nat.one_mul] at hlt

theorem TensorStore.loadLinear_bound {store : TensorStore} {sourceName tensorName : Str}
    {tensor : CpuTensor} {desc : TensorDescriptor} {a b : Nat}
    (hdesc : store.descriptor sourceName = .ok desc) (hdims : desc.dims = [a, b])
    (h : store.loadQ8_0BlockBackedLinearAs sourceName tensorName = .ok tensor) :
    a * b < 2 ^ 64 := by
  obtain ⟨desc', hdesc', h⟩ := Outcome.bind_eq_ok.mp h
  obtain rfl := Outcome.ok.inj (hdesc.symm.trans hdesc')
  split at h
  · obtain ⟨plain, hload, -⟩ := Outcome.bind_eq_ok.mp h
    obtain ⟨desc', hdesc', hload⟩ := Outcome.bind_eq_ok.mp hload
    obtain rfl := Outcome.ok.inj (hdesc.symm.trans hdesc')
    obtain ⟨bytes, -, hload⟩ := Outcome.bind_eq_ok.mp hload
    obtain ⟨count, hcount, -⟩ := Outcome.bind_eq_ok.mp hload
    rw [hdims] at hcount
    exact elementCount_lt hcount
  · obtain ⟨count, hcount, -⟩ := Outcome.bind_eq_ok.mp h
    rw [hdims] at hcount
    exact elementCount_lt hcount

/-- The table a token embedding of `width` columns is looked up in. -/
def CpuTensor.asTable (stored : CpuTensor) (vocab width : Nat) : CpuTensor :=
  { stored with dims := [vocab, width] }

theorem CpuTensor.asTable_lookup (stored : CpuTensor) (vocab width : Nat) (ids : List Nat)
    (name : Str) : (stored.asTable vocab width).embeddingLookup ids name =
      match stored.q8_0Blocks, stored.q4KWireBytes, stored.q5KWireBytes, stored.q6KWireBytes with
      | some blocks, _, _, _ =>
        (stored.asTable vocab width).embeddingLookupQ8_0BlockBacked ids name vocab width blocks
      | none, some wire, _, _ =>
        CpuTensor.embeddingLookupKquantWire ids name vocab width wire 144 Q4KBlock.decode
      | none, none, some wire, _ =>
        CpuTensor.embeddingLookupKquantWire ids name vocab width wire 176 Q5KBlock.decode
      | none, none, none, some wire =>
        CpuTensor.embeddingLookupKquantWire ids name vocab width wire 210 Q6KBlock.decode
      | none, none, none, none =>
        (stored.asTable vocab width).embeddingLookupData ids name vocab width := rfl

section Table

variable {store : TensorStore} {desc : TensorDescriptor} {stored : CpuTensor} {tensorName : Str}
  {vocab width : Nat}

/-- A loaded table whose rows fit holds every element. -/
theorem table_count (hwell : store.WellSized) (hdesc : store.descriptor desc.name = .ok desc)
    (hrank : desc.dims.length = 2) (hprod : desc.dims.prod = vocab * width)
    (hload : store.loadQ8_0BlockBackedLinearAs desc.name tensorName = .ok stored)
    (hfit : RowsFit desc.tensorType width) : stored.values.length = vocab * width := by
  obtain ⟨-, hsized⟩ := TensorStore.loadLinear_sized hwell hdesc hrank hload
  unfold CpuTensor.values
  rcases hblocks : stored.q8_0Blocks with _ | blocks
  · rw [hblocks] at hsized
    dsimp only
    rw [hsized.2, ← hprod, decodedCount_eq_iff]
    by_cases hQ5_1 : desc.tensorType = .Q5_1
    · rw [hQ5_1] at hfit
      have hzero : width = 0 := hfit
      exact .inr (by rw [hprod, hzero, Nat.mul_zero])
    · exact .inl hQ5_1
  · rw [hblocks] at hsized
    dsimp only
    rw [Rows.length_flatMap_blocks Q8_0Block.length_dequantize, hsized.2, hprod]

/-- A loaded table whose rows fit hands them out. -/
theorem table_handsOut (hwell : store.WellSized) (hdesc : store.descriptor desc.name = .ok desc)
    (hrank : desc.dims.length = 2) (hprod : desc.dims.prod = vocab * width)
    (hwidth : width < 2 ^ 64) (hbound : vocab * width < 2 ^ 64)
    (hload : store.loadQ8_0BlockBackedLinearAs desc.name tensorName = .ok stored)
    (hfit : RowsFit desc.tensorType width) :
    HandsOut (stored.asTable vocab width).embeddingLookup vocab width (stored.valueRow width) := by
  have hcount := table_count hwell hdesc hrank hprod hload hfit
  obtain ⟨desc', bytes, hdesc', hbytes, hstored⟩ := TensorStore.loadLinear_stored hload
  obtain rfl := Outcome.ok.inj (hdesc.symm.trans hdesc')
  intro ids name hids out
  rw [CpuTensor.asTable_lookup]
  rcases hstored with ⟨hplain, hdecoded⟩ | ⟨-, hblocked⟩
  · have htype : desc.tensorType ≠ .Q8_0 := hplain.resolve_right (not_not.mpr hrank)
    obtain ⟨name₁, hblocks⟩ := hdecoded.blocks_eq
    rw [TensorStore.retainedBlocks, if_neg htype] at hblocks
    have hblocks := (Outcome.ok.inj hblocks).symm
    obtain ⟨name₂, hdata⟩ := hdecoded.data_eq
    rw [hblocks, hdecoded.q4KWireBytes_eq, hdecoded.q5KWireBytes_eq, hdecoded.q6KWireBytes_eq]
    obtain ⟨block, size, hlayout, -, hlength⟩ := TensorStore.tensorBytes_eq_ok hwell hdesc hbytes
    -- a wire of `blockBytes` a block, in rows of whole blocks
    have hwire : ∀ blockBytes, desc.tensorType.layout = some (256, blockBytes) → 256 ∣ width →
        bytes.length = vocab * (width / 256 * blockBytes.toNat) := by
      rintro blockBytes hlayout' ⟨perRow, rfl⟩
      obtain ⟨rfl, rfl⟩ := Prod.mk.inj (Option.some.inj (hlayout.symm.trans hlayout'))
      have hblock : (256 : UInt64).toNat = 256 := rfl
      rw [hlength, hprod, hblock, Nat.mul_div_cancel_left _ (by decide), ← Nat.mul_assoc,
        Nat.mul_comm vocab 256, Nat.mul_assoc 256, Nat.mul_div_cancel_left _ (by decide),
        Nat.mul_assoc]
    by_cases hQ4K : desc.tensorType = .Q4K
    · rw [hQ4K] at hfit hdata hwire ⊢
      exact embeddingLookupKquantWire_handsOut Q4KBlock.decodes hblocks hdata (by decide)
        hfit hwidth (hwire 144 rfl hfit) hbound ids name hids out
    by_cases hQ6K : desc.tensorType = .Q6K
    · rw [hQ6K] at hfit hdata hwire ⊢
      exact embeddingLookupKquantWire_handsOut Q6KBlock.decodes hblocks hdata (by decide)
        hfit hwidth (hwire 210 rfl hfit) hbound ids name hids out
    · rw [if_neg hQ4K, if_neg hQ6K]
      exact embeddingLookupData_handsOut hblocks hcount hbound ids name hids out
  · obtain ⟨name₁, blocks, hblocks, hsome⟩ := hblocked.blocks_eq
    rw [hsome]
    rw [hblocked.tensorType_eq] at hfit
    exact embeddingLookupQ8_0_handsOut hsome hblocked.sourceType_eq hfit hcount hbound ids name
      hids out

/-- A loaded table whose rows do not fit refuses its last row. -/
theorem table_refuses (hwell : store.WellSized) (hdesc : store.descriptor desc.name = .ok desc)
    (hrank : desc.dims.length = 2) (hprod : desc.dims.prod = vocab * width) (hvocab : 0 < vocab)
    (hload : store.loadQ8_0BlockBackedLinearAs desc.name tensorName = .ok stored)
    (hfit : ¬RowsFit desc.tensorType width) (name : Str) (out : CpuTensor) :
    (stored.asTable vocab width).embeddingLookup [vocab - 1] name ≠ .ok out := by
  obtain ⟨-, hsized⟩ := TensorStore.loadLinear_sized hwell hdesc hrank hload
  obtain ⟨desc', bytes, hdesc', hbytes, hstored⟩ := TensorStore.loadLinear_stored hload
  obtain rfl := Outcome.ok.inj (hdesc.symm.trans hdesc')
  have hwire : ∀ {wire : List UInt8} {blockBytes : Nat}
      {dequantBlock : List UInt8 → EngineResult (List F32)}, ¬256 ∣ width →
      CpuTensor.embeddingLookupKquantWire [vocab - 1] name vocab width wire blockBytes
        dequantBlock ≠ .ok out := by
    intro wire blockBytes dequantBlock haligned
    unfold CpuTensor.embeddingLookupKquantWire
    rw [if_pos (by omega)]
    simp
  rw [CpuTensor.asTable_lookup]
  rcases hstored with ⟨hplain, hdecoded⟩ | ⟨-, hblocked⟩
  · have htype : desc.tensorType ≠ .Q8_0 := hplain.resolve_right (not_not.mpr hrank)
    obtain ⟨name₁, hblocks⟩ := hdecoded.blocks_eq
    rw [TensorStore.retainedBlocks, if_neg htype] at hblocks
    have hblocks := (Outcome.ok.inj hblocks).symm
    rw [hblocks] at hsized
    rw [hblocks, hdecoded.q4KWireBytes_eq, hdecoded.q5KWireBytes_eq, hdecoded.q6KWireBytes_eq]
    by_cases hQ4K : desc.tensorType = .Q4K
    · rw [hQ4K] at hfit ⊢
      exact hwire hfit
    by_cases hQ6K : desc.tensorType = .Q6K
    · rw [hQ6K] at hfit ⊢
      exact hwire hfit
    have hQ5_1 : desc.tensorType = .Q5_1 := by
      unfold RowsFit at hfit
      split at hfit
      · exact absurd ‹_› htype
      · exact absurd ‹_› hQ4K
      · exact absurd ‹_› hQ6K
      · assumption
      · exact absurd trivial hfit
    rw [hQ5_1] at hfit
    -- of the rest only Q5_1 decodes to fewer elements than its shape has
    have hshort : stored.data.length < vocab * width := by
      have hne : decodedCount desc.tensorType desc.dims.prod ≠ desc.dims.prod := by
        rw [Ne, decodedCount_eq_iff, hprod]
        rintro (h | h)
        · exact h hQ5_1
        · rcases Nat.mul_eq_zero.mp h with h | h
          · omega
          · exact hfit h
      have hle : decodedCount desc.tensorType desc.dims.prod ≤ desc.dims.prod := by
        unfold decodedCount
        split <;> omega
      rw [hsized.2]
      omega
    rw [if_neg hQ4K, if_neg hQ6K]
    intro hlookup
    -- and the slice of the last row ends where the shape ends
    obtain ⟨outputLen, -, hlookup⟩ := Outcome.bind_eq_ok.mp hlookup
    obtain ⟨-, -, hlookup⟩ := Outcome.bind_eq_ok.mp hlookup
    obtain ⟨rows, hrows, -⟩ := Outcome.bind_eq_ok.mp hlookup
    obtain ⟨found, hfound⟩ := Outcome.mem_of_mapM hrows (List.mem_singleton_self _)
    obtain ⟨token, htoken, hfound⟩ := Outcome.bind_eq_ok.mp hfound
    have htoken : token = vocab - 1 := by
      rw [CpuTensor.tokenIdx, if_pos (by omega)] at htoken
      exact (Outcome.ok.inj htoken).symm
    obtain ⟨start, hstart, hfound⟩ := Outcome.bind_eq_ok.mp hfound
    have hstart := (checkedMul_eq_some.mp (Outcome.okOr_eq_ok.mp hstart)).1
    split at hfound
    · have hslice := Outcome.orPanic_eq_ok.mp hfound
      have hle := (Rows.slice_eq_some.mp hslice).1
      have hend : start + width = vocab * width := by
        rw [hstart, htoken, Nat.sub_mul, Nat.one_mul]
        have := Nat.le_mul_of_pos_left width hvocab
        omega
      have hdata : (stored.asTable vocab width).data = stored.data := rfl
      rw [hdata] at hle
      omega
    · exact absurd hfound (by simp)
  · obtain ⟨name₁, blocks, hblocks, hsome⟩ := hblocked.blocks_eq
    rw [hblocked.tensorType_eq] at hfit
    have haligned : ¬32 ∣ width := hfit
    have htype : (stored.asTable vocab width).sourceType = some .Q8_0 := hblocked.sourceType_eq
    rw [hsome]
    dsimp only
    unfold CpuTensor.embeddingLookupQ8_0BlockBacked
    rw [if_neg (not_not.mpr htype), if_pos (by omega)]
    simp

end Table

-- ---------------------------------------------------------------------------
-- The tied projection
-- ---------------------------------------------------------------------------

/-- A row as it is kept: blocks, or plain values. -/
inductive StoredRow where
  | blocks (row : List Q8_0Block)
  | plain (row : List F32)
deriving DecidableEq

/-- The values of a kept row. -/
def StoredRow.values : StoredRow → List F32
  | blocks row => row.flatMap Q8_0Block.dequantize
  | plain row => row

/-- The portable dot of an input with a kept row. -/
def StoredRow.dot (input : List F32) : StoredRow → F32
  | blocks row => q8_0DotRows row (quantizeQ8_0Blocks input)
  | plain row => (List.zip row input).foldl (fun sum pair => sum + pair.1 * pair.2) 0

/-- Row `r` of a tensor. -/
def CpuTensor.storedRow (tensor : CpuTensor) (width r : Nat) : StoredRow :=
  match tensor.q8_0Blocks with
  | some blocks => .blocks ((blocks.drop (r * (width / 32))).take (width / 32))
  | none => .plain ((tensor.data.drop (r * width)).take width)

theorem rowDot_eq (weight : CpuTensor) (input : List F32) (o : Nat) :
    rowDot weight input o = (weight.storedRow input.length o).dot input := by
  unfold rowDot CpuTensor.storedRow
  rcases weight.q8_0Blocks with _ | blocks
  · rfl
  · rfl

theorem CpuTensor.storedRow_values {tensor : CpuTensor} {width : Nat}
    (haligned : tensor.q8_0Blocks ≠ none → 32 ∣ width) (r : Nat) :
    (tensor.storedRow width r).values = tensor.valueRow width r := by
  unfold storedRow
  rcases hblocks : tensor.q8_0Blocks with _ | blocks
  · unfold valueRow CpuTensor.values
    rw [hblocks]
    rfl
  · have hwidth := Nat.div_mul_cancel (haligned (by simp [hblocks]))
    rw [CpuTensor.valueRow_blocks hblocks hwidth.symm]
    rfl

/-- A matrix of rows of this width is projected. -/
theorem CpuTensor.not_refuses {tensor : CpuTensor} {width rows : Nat} (hwidth : 0 < width)
    (hrows : 0 < rows) (haligned : tensor.q8_0Blocks ≠ none → 32 ∣ width)
    (hcount : tensor.values.length = rows * width) : ¬tensor.Refuses width := by
  unfold Refuses
  unfold CpuTensor.values at hcount
  rintro (hzero | hrefused)
  · omega
  rcases hblocks : tensor.q8_0Blocks with _ | blocks
  · rw [hblocks] at hrefused hcount
    dsimp only at hrefused hcount
    rcases hrefused with hempty | hmod
    · have hpos := Nat.mul_pos hrows hwidth
      rw [← hcount, hempty] at hpos
      exact absurd hpos (by simp)
    · rw [hcount, Nat.mul_mod_left] at hmod
      exact hmod rfl
  · rw [hblocks] at hrefused hcount
    dsimp only at hrefused hcount
    obtain ⟨perRow, rfl⟩ := haligned (by simp [hblocks])
    rw [Rows.length_flatMap_blocks Q8_0Block.length_dequantize, Nat.mul_comm 32 perRow,
      ← Nat.mul_assoc] at hcount
    have hblockCount := Nat.eq_of_mul_eq_mul_right (by decide) hcount
    rw [Nat.mul_div_cancel_left _ (by decide), hblockCount, Nat.mul_mod_left] at hrefused
    omega

-- ---------------------------------------------------------------------------
-- Agreement
-- ---------------------------------------------------------------------------

/-- Loaded weights are what the binding was accepted for. -/
structure LlamaWeights.AgreesWith (weights : LlamaWeights) (config : LlamaModelConfig)
    (dims : DenseLlamaDims) (binding : LlamaTensorBinding) (projection : Q8Projection) : Prop where
  shapes : (∀ freqs, weights.ropeFreqs = some freqs → checkFrequencyFactors freqs.data = .ok ()) →
    weights.validateDenseShapes config = .ok ()
  embedding : weights.tokenEmbedding.dims = [dims.vocabSize, dims.embeddingLength]
  lookups : ∀ (ids : List Nat) (name : Str), ids.length < 2 ^ 64 →
    ((∃ out, weights.tokenEmbedding.embeddingLookup ids name = .ok out) ↔
        (∀ id ∈ ids, id < dims.vocabSize) ∧ ids.length * dims.embeddingLength * 4 < 2 ^ 63) ∧
      ∀ out, weights.tokenEmbedding.embeddingLookup ids name = .ok out →
        out.dims = [ids.length, dims.embeddingLength] ∧
          out.data.length = ids.length * dims.embeddingLength
  tied : binding.outputIsTiedEmbedding = true →
    ∀ input : List F32, input ≠ [] → input.length = dims.embeddingLength →
      ∃ out, linearRow weights.outputProjection input projection = .ok out ∧
        out.length = dims.vocabSize ∧
        ∀ t < dims.vocabSize, ∃ hidden,
          weights.tokenEmbedding.embeddingLookup [t] [] = .ok hidden ∧
            hidden.data = (weights.tokenEmbedding.storedRow dims.embeddingLength t).values ∧
            out[t]? = some ((weights.tokenEmbedding.storedRow dims.embeddingLength t).dot input)

omit [FloatOps] in
/-- The larger of the two sizes comes first. -/
theorem normalizeTokenEmbeddingShape_eq_ok {stored table : CpuTensor} {name : Str} {emb vocab : Nat}
    (hshape : Oriented stored emb vocab)
    (h : normalizeTokenEmbeddingShape stored name = .ok table) :
    table = stored.asTable (max vocab emb) (min vocab emb) := by
  unfold normalizeTokenEmbeddingShape at h
  unfold CpuTensor.asTable
  rcases hshape with hdims | hdims
  · rw [hdims] at h
    obtain rfl := Outcome.ok.inj h
    congr 1
    split
    · rw [Nat.max_eq_left (by omega), Nat.min_eq_right (by omega)]
    · rw [Nat.max_eq_right (by omega), Nat.min_eq_left (by omega)]
  · rw [hdims] at h
    obtain rfl := Outcome.ok.inj h
    congr 1
    split
    · rw [Nat.max_eq_right (by omega), Nat.min_eq_left (by omega)]
    · rw [Nat.max_eq_left (by omega), Nat.min_eq_right (by omega)]

/-- The steps of a load that returned. -/
theorem LlamaWeights.load_steps {store : TensorStore} {binding : LlamaTensorBinding}
    {weights : LlamaWeights} (h : LlamaWeights.load store binding = .ok weights) :
    ∃ stored output, store.loadQ8_0BlockBackedLinear binding.tokenEmbedding.name = .ok stored ∧
      normalizeTokenEmbeddingShape stored binding.tokenEmbedding.name = .ok weights.tokenEmbedding ∧
      store.loadCpuF32 binding.outputNorm.name = .ok weights.outputNorm ∧
      loadOutput store binding = .ok output ∧ weights.output = some output ∧
      store.loadOptional binding.ropeFreqs = .ok weights.ropeFreqs ∧
      binding.layers.mapM (LlamaLayerWeights.load store) = .ok weights.layers := by
  obtain ⟨stored, hstored, h⟩ := Outcome.bind_eq_ok.mp h
  obtain ⟨tokenEmbedding, hembedding, h⟩ := Outcome.bind_eq_ok.mp h
  obtain ⟨outputNorm, hnorm, h⟩ := Outcome.bind_eq_ok.mp h
  obtain ⟨output, houtput, h⟩ := Outcome.bind_eq_ok.mp h
  obtain ⟨ropeFreqs, hrope, h⟩ := Outcome.bind_eq_ok.mp h
  obtain ⟨layers, hlayers, h⟩ := Outcome.bind_eq_ok.mp h
  obtain rfl := Outcome.ok.inj h
  exact ⟨stored, output, hstored, hembedding, hnorm, houtput, rfl, hrope, hlayers⟩

/-- Everything but the token embedding is loaded in the shape it was bound in. -/
theorem LlamaWeights.validate_of_load {store : TensorStore} {config : LlamaModelConfig}
    {binding : LlamaTensorBinding} {dims : DenseLlamaDims} {weights : LlamaWeights}
    (hdims : DenseLlamaDims.fromConfig config = .ok dims)
    (hfound : ∀ desc ∈ binding.descriptors, store.descriptor desc.name = .ok desc)
    (htied : binding.outputIsTiedEmbedding = true → binding.output = binding.tokenEmbedding)
    (hbound : binding.validateDenseShapes config = .ok ())
    (hload : LlamaWeights.load store binding = .ok weights)
    (hembedding : weights.tokenEmbedding.dims = [dims.vocabSize, dims.embeddingLength])
    (hvalues : ∀ freqs, weights.ropeFreqs = some freqs →
      checkFrequencyFactors freqs.data = .ok ()) :
    weights.validateDenseShapes config = .ok () := by
  obtain ⟨-, hnormDims, houtputDims, -, hropeDims, hcount, hshaped⟩ :=
    LlamaTensorBinding.shaped_of_validate hdims hbound
  obtain ⟨stored, output, -, -, hnorm, houtput, hsome, hrope, hlayers⟩ := load_steps hload
  have hmem : ∀ {desc : TensorDescriptor}, desc ∈ binding.descriptors →
      store.descriptor desc.name = .ok desc := fun {desc} => hfound desc
  -- every tensor has the shape the binder saw, since loading keeps the descriptor's
  refine validate_of_shaped hdims hembedding ?_ ?_ ?_ ?_ ?_
  · rw [TensorStore.loadCpuF32_dims (hmem (by simp [LlamaTensorBinding.descriptors])) hnorm,
      hnormDims]
  · unfold outputProjection
    rw [hsome, Option.getD_some]
    unfold loadOutput at houtput
    split at houtput
    · rename_i hflag
      rw [htied hflag] at houtputDims
      exact TensorStore.loadLinear_oriented
        (hmem (by simp [LlamaTensorBinding.descriptors])) houtput houtputDims
    · exact TensorStore.loadLinear_oriented
        (hmem (by simp [LlamaTensorBinding.descriptors])) houtput houtputDims
  · unfold validateRopeFreqs
    rcases hfreqs : binding.ropeFreqs with _ | desc
    · rw [hfreqs] at hrope
      rw [← Outcome.ok.inj hrope]
    · rw [hfreqs] at hrope
      obtain ⟨freqs, hfreqsLoad, hropeSome⟩ := Outcome.bind_eq_ok.mp hrope
      have hropeSome : some freqs = weights.ropeFreqs := Outcome.ok.inj hropeSome
      unfold LlamaTensorBinding.validateRopeFreqs at hropeDims
      rw [hfreqs] at hropeDims
      dsimp only at hropeDims
      split at hropeDims
      · exact absurd hropeDims (by simp)
      rename_i hropeDim
      -- its values are the one thing the binder has not seen
      have hdescDims := requireDescriptorShape_eq_ok.mp hropeDims
      rw [← hropeSome]
      dsimp only
      unfold LlamaWeights.validateRopeFrequencyTensor CamelidEnterprise.validateRopeFrequencyTensor
      rw [if_neg (by omega), TensorStore.loadCpuF32_dims
        (hmem (by simp [LlamaTensorBinding.descriptors, hfreqs])) hfreqsLoad, hdescDims]
      dsimp only
      rw [if_neg (by simp), hvalues freqs hropeSome.symm]
      rfl
  · rw [Outcome.length_of_mapM hlayers, hcount]
  · intro layer hlayer
    obtain ⟨idx, hidx⟩ := List.mem_iff_getElem?.mp hlayer
    obtain ⟨bound, hbound, hlayerLoad⟩ := Outcome.getElem?_of_mapM hlayers hidx
    have hboundMem := List.mem_of_getElem? hbound
    refine LlamaLayerWeights.load_shaped ?_ (hshaped bound hboundMem) hlayerLoad
    intro desc hdesc
    refine hfound desc ?_
    unfold LlamaTensorBinding.descriptors
    exact List.mem_append_right _ (List.mem_flatMap.mpr ⟨bound, hboundMem, hdesc⟩)

omit [FloatOps] in
/-- A row of a table that is no wider than high is far from filling the memory. -/
theorem row_reserved {vocab width : Nat} (hle : width ≤ vocab) (hbound : vocab * width < 2 ^ 64) :
    width * 4 < 2 ^ 63 := by
  by_contra hwide
  have hsquare : 2 ^ 32 * 2 ^ 32 ≤ vocab * width := Nat.mul_le_mul (by omega) (by omega)
  omega

/-- **Shapes.** Loaded weights are what their binding was accepted for exactly when
the vocabulary is no smaller than the embedding, and the rows of the token embedding
come in whole blocks that are decoded in full. -/
theorem bind_load_agree_iff {bytes : List UInt8} {declaredLen : UInt64} {gguf : GgufFile}
    (hparse : readMetadataWithLen bytes declaredLen = .ok gguf) {config : LlamaModelConfig}
    {binding : LlamaTensorBinding} (hbind : LlamaTensorBinding.bind gguf config = .ok binding)
    {dims : DenseLlamaDims} (hdims : DenseLlamaDims.fromConfig config = .ok dims) {path : String}
    {file : List UInt8} {weights : LlamaWeights}
    (hload : LlamaWeights.load (TensorStore.ofHeader path file gguf) binding = .ok weights)
    (projection : Q8Projection) :
    weights.AgreesWith config dims binding projection ↔
      dims.embeddingLength ≤ dims.vocabSize ∧
        RowsFit binding.tokenEmbedding.tensorType dims.embeddingLength := by
  obtain ⟨headerLen, -, hlaid⟩ := wellLaidOut_of_ok hparse
  have hwell := TensorStore.ofHeader_wellSized hparse path file
  have hfound : ∀ desc ∈ binding.descriptors,
      (TensorStore.ofHeader path file gguf).descriptor desc.name = .ok desc := fun desc hdesc =>
    TensorStore.descriptor_of_mem path file hlaid.namesUnique
      (LlamaTensorBinding.mem_of_bind hbind hdesc)
  obtain ⟨-, -, houtput, hflag, -, -, -, hvalidated⟩ := LlamaTensorBinding.bind_steps hbind
  obtain ⟨hshape, -⟩ := LlamaTensorBinding.shaped_of_validate hdims hvalidated
  obtain ⟨stored, output, hstored, htable, -, houtputLoad, hsome, -⟩ := LlamaWeights.load_steps hload
  have hdesc := hfound binding.tokenEmbedding (by simp [LlamaTensorBinding.descriptors])
  have htable := normalizeTokenEmbeddingShape_eq_ok
    (TensorStore.loadLinear_oriented hdesc hstored hshape) htable
  have hvocab : 0 < dims.vocabSize := by
    obtain ⟨hdense, vocab, hvocab, rfl⟩ := DenseLlamaDims.fromConfig_eq_ok.mp hdims
    obtain ⟨vocab', hvocab', hpos⟩ := hdense.vocab_pos
    obtain rfl := Option.some.inj (hvocab.symm.trans hvocab')
    exact hpos
  have hwidth : dims.embeddingLength < 2 ^ 64 := by
    have hmem : dims.embeddingLength ∈ binding.tokenEmbedding.dims := by
      rcases hshape with h | h
      · simp [h]
      · simp [h]
    obtain ⟨dimension, -, hdimension⟩ := List.mem_map.mp hmem
    rw [← hdimension]
    exact dimension.toNat_lt
  have hrank : binding.tokenEmbedding.dims.length = 2 := by
    rcases hshape with h | h
    · rw [h]; rfl
    · rw [h]; rfl
  have hprod : binding.tokenEmbedding.dims.prod = dims.vocabSize * dims.embeddingLength := by
    rcases hshape with h | h
    · simp [h, Nat.mul_comm]
    · simp [h]
  have hbound : dims.vocabSize * dims.embeddingLength < 2 ^ 64 := by
    rcases hshape with h | h
    · rw [Nat.mul_comm]
      exact TensorStore.loadLinear_bound hdesc h hstored
    · exact TensorStore.loadLinear_bound hdesc h hstored
  constructor
  · intro hagrees
    have hle : dims.embeddingLength ≤ dims.vocabSize := by
      have hembedding := hagrees.embedding
      rw [htable] at hembedding
      have hmax : max dims.vocabSize dims.embeddingLength = dims.vocabSize :=
        (List.cons.inj hembedding).1
      omega
    rw [Nat.max_eq_left hle, Nat.min_eq_right hle] at htable
    refine ⟨hle, ?_⟩
    by_contra hfit
    have hlast : [dims.vocabSize - 1].length * dims.embeddingLength * 4 < 2 ^ 63 := by
      simpa using row_reserved hle hbound
    obtain ⟨out, hout⟩ := (hagrees.lookups [dims.vocabSize - 1] [] (by simp)).1.mpr
      ⟨by simp; omega, hlast⟩
    rw [htable] at hout
    exact table_refuses hwell hdesc hrank hprod hvocab hstored hfit [] out hout
  · rintro ⟨hle, hfit⟩
    rw [Nat.max_eq_left hle, Nat.min_eq_right hle] at htable
    have hhandsOut := table_handsOut hwell hdesc hrank hprod hwidth hbound hstored hfit
    have hsized := (TensorStore.loadLinear_sized hwell hdesc hrank hstored).2
    have haligned : stored.q8_0Blocks ≠ none → 32 ∣ dims.embeddingLength := by
      intro hsome
      obtain ⟨blocks, hblocks⟩ := Option.ne_none_iff_exists'.mp hsome
      rw [hblocks] at hsized
      rw [hsized.1] at hfit
      exact hfit
    have hcount := table_count hwell hdesc hrank hprod hstored hfit
    refine ⟨?_, by rw [htable]; rfl, ?_, ?_⟩
    · intro hvalues
      refine LlamaWeights.validate_of_load hdims hfound ?_ hvalidated hload (by rw [htable]; rfl)
        hvalues
      intro htied
      rw [hflag] at htied
      rw [houtput, Option.isNone_iff_eq_none.mp htied]
      rfl
    · intro ids name hids
      rw [htable]
      refine ⟨?_, ?_⟩
      · constructor
        · rintro ⟨out, hout⟩
          obtain ⟨hall, hfits, -⟩ := (hhandsOut ids name hids out).mp hout
          exact ⟨hall, hfits⟩
        · rintro ⟨hall, hfits⟩
          exact ⟨_, (hhandsOut ids name hids _).mpr ⟨hall, hfits, rfl⟩⟩
      · intro out hout
        obtain ⟨hall, hfits, rfl⟩ := (hhandsOut ids name hids out).mp hout
        refine ⟨rfl, ?_⟩
        exact length_flatMap_rows fun id hid => CpuTensor.length_valueRow hcount (hall id hid)
    · intro htied input hinput hlength
      have hpos : 0 < dims.embeddingLength := by
        rw [← hlength]
        exact List.length_pos_iff.mpr hinput
      have hrenamed : output = { stored with name := "output.weight".toList } := by
        unfold loadOutput at houtputLoad
        rw [if_pos htied] at houtputLoad
        have := TensorStore.loadLinear_renamed hstored "output.weight".toList
        exact (Outcome.ok.inj (houtputLoad.symm.trans this))
      have hprojection : weights.outputProjection = output := by
        unfold LlamaWeights.outputProjection
        rw [hsome, Option.getD_some]
      have hrefuses : ¬output.Refuses input.length := by
        rw [hlength, hrenamed]
        exact CpuTensor.not_refuses hpos hvocab haligned hcount
      obtain ⟨out, hout, hrows, hentries⟩ := linearRow_ok projection hrefuses
      have hvalues : output.values = stored.values := by rw [hrenamed]; rfl
      have hvocabRows : out.length = dims.vocabSize := by
        rw [hvalues, hcount, hlength] at hrows
        exact Nat.eq_of_mul_eq_mul_right hpos hrows
      rw [hprojection]
      refine ⟨out, hout, hvocabRows, ?_⟩
      intro t ht
      -- the table has the rows of the stored tensor
      have hrow : weights.tokenEmbedding.storedRow dims.embeddingLength t =
          stored.storedRow dims.embeddingLength t := by
        rw [htable]
        rfl
      rw [hrow]
      refine ⟨plainMatrix [] 1 dims.embeddingLength (stored.valueRow dims.embeddingLength t),
        ?_, ?_, ?_⟩
      · rw [htable]
        refine (hhandsOut [t] [] (by simp) _).mpr ⟨by simpa using ht, by simpa using row_reserved hle hbound, ?_⟩
        rw [List.flatMap_singleton]
        rfl
      · exact (CpuTensor.storedRow_values haligned t).symm
      · rw [hentries t (by omega), rowDot_eq, hlength, hrenamed]
        rfl

end Shapes

-- ---------------------------------------------------------------------------
-- Two headers
-- ---------------------------------------------------------------------------

section Small

attribute [local instance] residueOps

/-- A size of a header's descriptor. -/
def sizeBytes (n : UInt8) : List UInt8 := [n, 0, 0, 0, 0, 0, 0, 0]

/-- A version 3 file without metadata: the token embedding of a tied model, declared
as `[emb, vocab]` for six elements, and its output norm. -/
def tableFile (emb vocab : UInt8) : List UInt8 :=
  [71, 71, 85, 70, 3, 0, 0, 0, 2, 0, 0, 0, 0, 0, 0, 0, 0, 0, 0, 0, 0, 0, 0, 0, 17, 0, 0, 0, 0, 0,
    0, 0, 116, 111, 107, 101, 110, 95, 101, 109, 98, 100, 46, 119, 101, 105, 103, 104, 116, 2, 0,
    0, 0] ++ sizeBytes emb ++ sizeBytes vocab ++
  [0, 0, 0, 0, 0, 0, 0, 0, 0, 0, 0, 0, 18, 0, 0, 0, 0, 0, 0, 0, 111, 117, 116, 112, 117, 116, 95,
    110, 111, 114, 109, 46, 119, 101, 105, 103, 104, 116, 1, 0, 0, 0] ++ sizeBytes emb ++
  [0, 0, 0, 0, 32, 0, 0, 0, 0, 0, 0, 0] ++ List.replicate 73 0

/-- A decoder of no layers. -/
def tableConfig (emb vocab : Nat) : LlamaModelConfig :=
  { contextLength := 8, embeddingLength := emb, blockCount := 0, feedForwardLength := 1
    attentionHeadCount := 1, attentionHeadCountKv := 1, ropeDimensionCount := none
    ropeFreqBase := none, ropeScalingType := none, ropeScalingFactor := none
    ropeScalingOriginalContextLength := none, ropeScalingLowFreqFactor := none
    ropeScalingHighFreqFactor := none, rmsNormEpsilon := 0, vocabSize := some vocab
    fileType := none, attentionKeyLength := none, ropeNeoxPairing := false }

/-- The dimensions of that decoder. -/
def tableDims (emb vocab : Nat) : DenseLlamaDims := ⟨emb, 0, 1, 1, emb, emb, emb, vocab⟩

/-- The header, its binding and the weights. -/
def loadTable (emb vocab : UInt8) : EngineResult (LlamaTensorBinding × LlamaWeights) := do
  let gguf ← readMetadataWithLen (tableFile emb vocab) 204
  let binding ← LlamaTensorBinding.bind gguf (tableConfig emb.toNat vocab.toNat)
  let weights ← LlamaWeights.load
    (TensorStore.ofHeader "model.gguf" (tableFile emb vocab) gguf) binding
  .ok (binding, weights)

/-- An embedding of three columns and two rows is bound and loaded, and the loaded
weights fail their check. -/
theorem wide_embedding_rejected_after_load :
    ∃ gguf binding weights,
      readMetadataWithLen (tableFile 3 2) 204 = .ok gguf ∧
      LlamaTensorBinding.bind gguf (tableConfig 3 2) = .ok binding ∧
      LlamaWeights.load (TensorStore.ofHeader "model.gguf" (tableFile 3 2) gguf) binding =
        .ok weights ∧
      weights.tokenEmbedding.dims = [3, 2] ∧ weights.ropeFreqs = none ∧
      ∃ e, weights.validateDenseShapes (tableConfig 3 2) = .err e := by
  have hrun : (loadTable 3 2).map (fun loaded => (loaded.2.tokenEmbedding.dims,
      loaded.2.ropeFreqs, (loaded.2.validateDenseShapes (tableConfig 3 2)).failure.map Sum.isLeft)) =
      .ok ([3, 2], none, some true) := by decide +kernel
  obtain ⟨⟨binding, weights⟩, hloaded, hchecked⟩ := Outcome.map_eq_ok.mp hrun
  obtain ⟨gguf, hparse, hloaded⟩ := Outcome.bind_eq_ok.mp hloaded
  obtain ⟨binding', hbind, hloaded⟩ := Outcome.bind_eq_ok.mp hloaded
  obtain ⟨weights', hload, hloaded⟩ := Outcome.bind_eq_ok.mp hloaded
  obtain ⟨rfl, rfl⟩ := Prod.mk.inj (Outcome.ok.inj hloaded)
  obtain ⟨hshape, hchecked⟩ := Prod.mk.inj hchecked
  obtain ⟨hfreqs, hfailed⟩ := Prod.mk.inj hchecked
  refine ⟨gguf, binding', weights', hparse, hbind, hload, hshape, hfreqs, ?_⟩
  rcases hvalidated : weights'.validateDenseShapes (tableConfig 3 2) with ok | e | fault
  · rw [hvalidated] at hfailed
    exact absurd hfailed (by simp)
  · exact ⟨e, rfl⟩
  · rw [hvalidated] at hfailed
    exact absurd hfailed (by simp)

theorem bind_load_agree_iff_small :
    ∃ binding weights, loadTable 2 3 = .ok (binding, weights) ∧
      weights.AgreesWith (tableConfig 2 3) (tableDims 2 3) binding .portable := by
  have hrun : (loadTable 2 3).map (fun loaded => loaded.1.tokenEmbedding.tensorType) = .ok .F32 := by
    decide +kernel
  obtain ⟨⟨binding, weights⟩, hloaded, htype⟩ := Outcome.map_eq_ok.mp hrun
  obtain ⟨gguf, hparse, hsteps⟩ := Outcome.bind_eq_ok.mp hloaded
  obtain ⟨binding', hbind, hsteps⟩ := Outcome.bind_eq_ok.mp hsteps
  obtain ⟨weights', hload, hsteps⟩ := Outcome.bind_eq_ok.mp hsteps
  obtain ⟨rfl, rfl⟩ := Prod.mk.inj (Outcome.ok.inj hsteps)
  have hdims : DenseLlamaDims.fromConfig (tableConfig 2 3) = .ok (tableDims 2 3) := by
    decide +kernel
  refine ⟨binding', weights', hloaded, ?_⟩
  refine (bind_load_agree_iff hparse hbind hdims hload .portable).mpr ⟨by decide, ?_⟩
  have htype : binding'.tokenEmbedding.tensorType = .F32 := htype
  rw [htype]
  trivial

end Small

end CamelidEnterprise

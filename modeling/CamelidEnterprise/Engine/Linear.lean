import CamelidEnterprise.Foundation.Exact
import CamelidEnterprise.Engine.Load

/-!
# Camelid Enterprise — linear projections

What `linear_row` of `crates/engine-core/src/forward/compute.rs` computes: for any
arithmetic, output `o` is the portable dot of the input with the `o`-th row of the
buffer, whatever the shape the weight is declared with; where nothing on the way is
rounded, it is a sum over the elements of that row.

Key results: `linearRow_ok` and `toRat_rowDot_eq_sum`.
-/

namespace CamelidEnterprise

open Foundation Gguf

variable [FloatOps]

-- ---------------------------------------------------------------------------
-- Rows
-- ---------------------------------------------------------------------------

/-- The portable dot of an input with row `o` of a weight's buffer. -/
def rowDot (weight : CpuTensor) (input : List F32) (o : Nat) : F32 :=
  match weight.q8_0Blocks with
  | some blocks =>
    q8_0DotRows ((blocks.drop (o * (input.length / 32))).take (input.length / 32))
      (quantizeQ8_0Blocks input)
  | none =>
    (List.zip ((weight.data.drop (o * input.length)).take input.length) input).foldl
      (fun sum pair => sum + pair.1 * pair.2) 0

/-- The values a linear projection reads: those of its blocks, where it has any. -/
def CpuTensor.values (weight : CpuTensor) : List F32 :=
  match weight.q8_0Blocks with
  | some blocks => blocks.flatMap Q8_0Block.dequantize
  | none => weight.data

/-- The weight has no rows of this width. -/
def CpuTensor.Refuses (weight : CpuTensor) (width : Nat) : Prop :=
  width = 0 ∨
    match weight.q8_0Blocks with
    | some blocks => width % 32 ≠ 0 ∨ blocks.length % (width / 32) ≠ 0
    | none => weight.data = [] ∨ weight.data.length % width ≠ 0

/-- Each output is the dot of its own row. -/
theorem linearRow_ok {weight : CpuTensor} {input : List F32} (projection : Q8Projection)
    (h : ¬weight.Refuses input.length) :
    ∃ out, linearRow weight input projection = .ok out ∧
      out.length * input.length = weight.values.length ∧
      ∀ o < out.length, out[o]? = some (rowDot weight input o) := by
  unfold CpuTensor.Refuses at h
  unfold linearRow CpuTensor.values rowDot
  obtain ⟨hwidth, h⟩ := not_or.mp h
  dsimp only
  rw [if_neg hwidth]
  rcases hstored : weight.q8_0Blocks with _ | blocks
  · rw [hstored] at h
    dsimp only at h ⊢
    obtain ⟨hdata, haligned⟩ := not_or.mp h
    -- plain values: every row the loop takes is a slice of the data
    rw [if_pos hdata, if_neg haligned]
    have hdvd : weight.data.length / input.length * input.length = weight.data.length :=
      Nat.div_mul_cancel (Nat.dvd_of_mod_eq_zero (not_not.mp haligned))
    have hrow : ∀ o ∈ List.range (weight.data.length / input.length), (do
        let row ← Outcome.orPanic (Rows.row weight.data input.length o)
        dotProduct row input : EngineResult F32) =
        .ok ((List.zip ((weight.data.drop (o * input.length)).take input.length) input).foldl
          (fun sum pair => sum + pair.1 * pair.2) 0) := by
      intro o ho
      have hle : o * input.length + input.length ≤ weight.data.length := by
        rw [← hdvd]
        exact Rows.row_le (List.mem_range.mp ho)
      unfold Rows.row dotProduct
      rw [Rows.slice_of_le hle]
      show (if input.length < ((weight.data.drop (o * input.length)).take input.length).length
        then _ else _) = _
      rw [if_neg (by simp)]
    rw [Outcome.mapM_congr hrow, Outcome.mapM_ok]
    refine ⟨_, rfl, by simpa using hdvd, ?_⟩
    intro o ho
    rw [List.length_map, List.length_range] at ho
    simp [ho]
  · rw [hstored] at h
    dsimp only at h ⊢
    obtain ⟨haligned, hcount⟩ := not_or.mp h
    have haligned := not_not.mp haligned
    have hcount := not_not.mp hcount
    -- blocks: the three projections agree, and a row of blocks decodes to a row of values
    have hperRow : input.length / 32 ≠ 0 := by omega
    have hdvd : blocks.length = blocks.length / (input.length / 32) * (input.length / 32) :=
      (Nat.div_mul_cancel (Nat.dvd_of_mod_eq_zero hcount)).symm
    rw [if_neg (by omega), if_neg (by tauto), projection.run_eq hdvd]
    refine ⟨_, rfl, ?_, ?_⟩
    · rw [Rows.length_flatMap_blocks Q8_0Block.length_dequantize, List.length_map,
        List.length_range]
      conv_rhs => rw [hdvd]
      rw [Nat.mul_assoc, Nat.div_mul_cancel (Nat.dvd_of_mod_eq_zero haligned)]
    · intro o ho
      rw [List.length_map, List.length_range] at ho
      simp [ho]

/-- A weight without such rows is refused. -/
theorem linearRow_refused {weight : CpuTensor} {input : List F32} (projection : Q8Projection)
    (h : weight.Refuses input.length) : ∃ e, linearRow weight input projection = .err e := by
  unfold CpuTensor.Refuses at h
  unfold linearRow
  dsimp only
  rcases h with hwidth | h
  · exact ⟨_, if_pos hwidth⟩
  by_cases hwidth : input.length = 0
  · exact ⟨_, if_pos hwidth⟩
  rw [if_neg hwidth]
  rcases hstored : weight.q8_0Blocks with _ | blocks
  · rw [hstored] at h
    dsimp only at h ⊢
    rcases h with hdata | haligned
    · exact ⟨_, if_neg (not_not.mpr hdata)⟩
    · by_cases hdata : weight.data = []
      · exact ⟨_, if_neg (not_not.mpr hdata)⟩
      · rw [if_pos hdata]
        exact ⟨_, if_pos haligned⟩
  · rw [hstored] at h
    dsimp only at h ⊢
    rcases h with haligned | hcount
    · exact ⟨_, if_pos haligned⟩
    · by_cases haligned : input.length % 32 = 0
      · rw [if_neg (not_not.mpr haligned)]
        exact ⟨_, if_pos (.inr hcount)⟩
      · exact ⟨_, if_pos haligned⟩

-- ---------------------------------------------------------------------------
-- Rows that are not rounded
-- ---------------------------------------------------------------------------

/-- The numbers that a block stands for. -/
def Q8_0Block.elements (block : Q8_0Block) : List ℚ :=
  block.quants.toList.map fun quant => block.scale.toRat * quant.toInt

/-- The elements of a weight, in the order they are stored. -/
def CpuTensor.elements (weight : CpuTensor) : List ℚ :=
  match weight.q8_0Blocks with
  | some blocks => blocks.flatMap Q8_0Block.elements
  | none => weight.data.map F32.toRat

/-- The row a linear projection meets a weight with: a Q8_0 weight meets the Q8_0
quantization of the input. -/
def CpuTensor.readRow (weight : CpuTensor) (input : List F32) : List ℚ :=
  match weight.q8_0Blocks with
  | some _ => (quantizeQ8_0Blocks input).flatMap Q8_0Block.elements
  | none => input.map F32.toRat

/-- What `q8_0_dot_rows` adds for two blocks. -/
def blockTerm (w x : Q8_0Block) : F32 := F32.ofInt (blockIntDot w.quants x.quants) * w.scale * x.scale

/-- Nothing on the way to an output is rounded: no product of its row, and no partial
sum. -/
def CpuTensor.ExactRow (weight : CpuTensor) (input : List F32) (o : Nat) : Prop :=
  match weight.q8_0Blocks with
  | some blocks =>
    let row := (blocks.drop (o * (input.length / 32))).take (input.length / 32)
    (∀ pair ∈ row.zip (quantizeQ8_0Blocks input), (blockTerm pair.1 pair.2).toRat =
      blockIntDot pair.1.quants pair.2.quants * pair.1.scale.toRat * pair.2.scale.toRat) ∧
    ExactFold (-0) (List.zipWith blockTerm row (quantizeQ8_0Blocks input))
  | none =>
    let row := (weight.data.drop (o * input.length)).take input.length
    (∀ pair ∈ row.zip input, (pair.1 * pair.2).toRat = pair.1.toRat * pair.2.toRat) ∧
      ExactFold 0 (List.zipWith (· * ·) row input)

theorem length_quantizeQ8_0Blocks (input : List F32) :
    (quantizeQ8_0Blocks input).length = input.length / 32 := by
  unfold quantizeQ8_0Blocks
  rw [List.length_map, length_chunksExact]

omit [FloatOps] in
theorem Q8_0Block.length_elements (block : Q8_0Block) : block.elements.length = 32 := by
  simp [elements]

theorem CpuTensor.length_elements (weight : CpuTensor) :
    weight.elements.length = weight.values.length := by
  unfold elements values
  split
  · rw [Rows.length_flatMap_blocks Q8_0Block.length_elements,
      Rows.length_flatMap_blocks Q8_0Block.length_dequantize]
  · rw [List.length_map]

theorem length_readRow {weight : CpuTensor} {input : List F32}
    (h : ¬weight.Refuses input.length) : (weight.readRow input).length = input.length := by
  unfold CpuTensor.Refuses at h
  unfold CpuTensor.readRow
  rcases hstored : weight.q8_0Blocks with _ | blocks
  · exact List.length_map _
  · rw [hstored] at h
    dsimp only at h ⊢
    rw [Rows.length_flatMap_blocks Q8_0Block.length_elements, length_quantizeQ8_0Blocks]
    omega

omit [FloatOps] in
/-- Two scaled rows of bytes. -/
theorem dot_scaled {R : Type} [CommRing R] (s t : R) (us vs : List Int8) :
    dot (us.map fun q => s * (q.toInt : R)) (vs.map fun q => t * (q.toInt : R)) =
      ((List.zipWith (fun w x : Int8 => w.toInt * x.toInt) us vs).sum : Int) * s * t := by
  induction us generalizing vs with
  | nil => simp [dot]
  | cons u us ih =>
    rcases vs with _ | ⟨v, vs⟩
    · simp [dot]
    · rw [List.map_cons, List.map_cons, dot_cons, ih, List.zipWith_cons_cons, List.sum_cons]
      push_cast
      ring

omit [FloatOps] in
/-- The integer dot of two blocks, scaled, is the dot of what they stand for. -/
theorem dot_elements (w x : Q8_0Block) :
    dot w.elements x.elements = blockIntDot w.quants x.quants * w.scale.toRat * x.scale.toRat :=
  dot_scaled _ _ _ _

/-- A sum of products that are not rounded is a dot product. -/
theorem sum_products {row input : List F32}
    (h : ∀ pair ∈ row.zip input, (pair.1 * pair.2).toRat = pair.1.toRat * pair.2.toRat) :
    ((List.zipWith (· * ·) row input).map F32.toRat).sum =
      dot (row.map F32.toRat) (input.map F32.toRat) := by
  induction row generalizing input with
  | nil => simp [dot]
  | cons x row ih =>
    rcases input with _ | ⟨y, input⟩
    · simp [dot]
    · rw [List.zip_cons_cons, List.forall_mem_cons] at h
      rw [List.zipWith_cons_cons, List.map_cons, List.sum_cons, List.map_cons, List.map_cons,
        dot_cons, ih h.2, h.1]

/-- The same of blocks. -/
theorem sum_blockTerms {ws xs : List Q8_0Block} (hlength : ws.length = xs.length)
    (h : ∀ pair ∈ ws.zip xs, (blockTerm pair.1 pair.2).toRat =
      blockIntDot pair.1.quants pair.2.quants * pair.1.scale.toRat * pair.2.scale.toRat) :
    ((List.zipWith blockTerm ws xs).map F32.toRat).sum =
      dot (ws.flatMap Q8_0Block.elements) (xs.flatMap Q8_0Block.elements) := by
  induction ws generalizing xs with
  | nil => simp [dot]
  | cons w ws ih =>
    obtain ⟨x, xs, rfl⟩ : ∃ x xs', xs = x :: xs' := by
      rcases xs with _ | ⟨x, xs'⟩
      · exact absurd hlength (by simp)
      · exact ⟨x, xs', rfl⟩
    rw [List.zip_cons_cons, List.forall_mem_cons] at h
    have hblocks : w.elements.length = x.elements.length := by
      rw [Q8_0Block.length_elements, Q8_0Block.length_elements]
    rw [List.zipWith_cons_cons, List.map_cons, List.sum_cons, List.flatMap_cons,
      List.flatMap_cons, dot_append hblocks, dot_elements, ih (by simpa using hlength) h.2, h.1]

/-- The fold of a dot product adds its products. -/
theorem foldl_mul_add (row input : List F32) (start : F32) :
    (row.zip input).foldl (fun sum pair => sum + pair.1 * pair.2) start =
      (List.zipWith (· * ·) row input).foldl (· + ·) start := by
  rw [← List.map_uncurry_zip_eq_zipWith, List.foldl_map]
  rfl

/-- An output on whose way nothing is rounded is the dot of the row that is read with the
weight's row of that number. -/
theorem toRat_rowDot {weight : CpuTensor} {input : List F32} {o : Nat}
    (hrefuses : ¬weight.Refuses input.length)
    (ho : o * input.length + input.length ≤ weight.values.length) (hexact : weight.ExactRow input o) :
    (rowDot weight input o).toRat =
      dot ((weight.elements.drop (o * input.length)).take input.length) (weight.readRow input) := by
  unfold CpuTensor.Refuses at hrefuses
  unfold CpuTensor.ExactRow at hexact
  rw [← CpuTensor.length_elements] at ho
  unfold CpuTensor.elements at ho ⊢
  unfold rowDot CpuTensor.readRow
  obtain ⟨hwidth, hrefuses⟩ := not_or.mp hrefuses
  rcases hstored : weight.q8_0Blocks with _ | blocks
  · rw [hstored] at hexact
    obtain ⟨hproducts, hsums⟩ := hexact
    dsimp only at hproducts hsums ⊢
    rw [foldl_mul_add, hsums.toRat_foldl, F32.toRat_zero, zero_add, sum_products hproducts,
      List.map_take, List.map_drop]
  · rw [hstored] at hrefuses ho hexact
    obtain ⟨hterms, hsums⟩ := hexact
    dsimp only at hrefuses ho hterms hsums ⊢
    have haligned : input.length / 32 * 32 = input.length := by omega
    have hblocks : o * (input.length / 32) + input.length / 32 ≤ blocks.length := by
      rw [Rows.length_flatMap_blocks Q8_0Block.length_elements] at ho
      have hmul : (o * (input.length / 32) + input.length / 32) * 32 ≤ blocks.length * 32 := by
        rw [Nat.add_mul, Nat.mul_assoc, haligned]
        exact ho
      omega
    have hrow := Rows.row_flatMap Q8_0Block.length_elements blocks (input.length / 32) o
      (Rows.slice_of_le hblocks)
    rw [haligned, Rows.row, Rows.slice_of_le ho, Option.some.injEq] at hrow
    have hlength : ((blocks.drop (o * (input.length / 32))).take (input.length / 32)).length =
        (quantizeQ8_0Blocks input).length := by
      rw [length_quantizeQ8_0Blocks, List.length_take, List.length_drop]
      omega
    show (F32.sum (List.zipWith blockTerm _ _)).toRat = _
    unfold F32.sum
    rw [hsums.toRat_foldl, F32.toRat_negZero, zero_add, sum_blockTerms hlength hterms, hrow]

/-- As a sum over the inputs. -/
theorem toRat_rowDot_eq_sum {weight : CpuTensor} {input : List F32} {o : Nat}
    (hrefuses : ¬weight.Refuses input.length)
    (ho : o * input.length + input.length ≤ weight.values.length) (hexact : weight.ExactRow input o) :
    (rowDot weight input o).toRat =
      ∑ i ∈ Finset.range input.length,
        (weight.readRow input).getD i 0 * weight.elements.getD (o * input.length + i) 0 := by
  have hread := length_readRow hrefuses
  have hlength := weight.length_elements
  rw [toRat_rowDot hrefuses ho hexact, dot_eq_sum (by simp [hread]; omega), List.length_take,
    List.length_drop, Nat.min_eq_left (by omega)]
  refine Finset.sum_congr rfl ?_
  intro i hi
  have hi : i < input.length := Finset.mem_range.mp hi
  rw [List.getD_eq_getElem?_getD, List.getElem?_take_of_lt hi, List.getElem?_drop,
    ← List.getD_eq_getElem?_getD, mul_comm]

end CamelidEnterprise

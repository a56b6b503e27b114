import CamelidEnterprise.Engine.Linear

/-!
# Camelid Enterprise — the orientation of a linear

A header declares a linear with its dims, the first of them fastest, as
`[input, output]` or as `[output, input]`, and both are bound
(`crates/engine-core/src/model/binding.rs`) and loaded
(`crates/engine-core/src/model/weights.rs`). The projection reads rows of as many
elements as its input has, whichever of the two was declared.

Key result: `linear_projects`, what a bound and loaded linear projects, and which ones it
refuses to. The types whose blocks are decoded short are left out.
-/

namespace CamelidEnterprise

open Foundation Gguf

/-- The place of the weight from input `i` to output `o`, by the declared dims. -/
def declaredIndex (dims : List Nat) (inputWidth outputWidth o i : Nat) : Nat :=
  if dims = [inputWidth, outputWidth] then o * inputWidth + i else i * outputWidth + o

section Projection

variable [FloatOps]

/-- Every row is projected. An output on whose way nothing is rounded is the sum over the
elements that `dims` declare. -/
def CpuTensor.ProjectsBy (weight : CpuTensor) (dims : List Nat) (projection : Q8Projection)
    (inputWidth outputWidth : Nat) : Prop :=
  ∀ input : List F32, input.length = inputWidth →
    ∃ out, linearRow weight input projection = .ok out ∧ out.length = outputWidth ∧
      ∀ o < outputWidth, weight.ExactRow input o → (out.getD o 0).toRat =
        ∑ i ∈ Finset.range inputWidth, (weight.readRow input).getD i 0 *
          weight.elements.getD (declaredIndex dims inputWidth outputWidth o i) 0

/-- A weight that has rows of the input's width projects by the shape `[input, output]`. -/
theorem CpuTensor.projectsBy_rows {weight : CpuTensor} {inputWidth outputWidth : Nat}
    (hrefuses : ¬weight.Refuses inputWidth)
    (hcount : weight.values.length = outputWidth * inputWidth) (projection : Q8Projection) :
    weight.ProjectsBy [inputWidth, outputWidth] projection inputWidth outputWidth := by
  rintro input rfl
  obtain ⟨out, hout, hlength, hrows⟩ := linearRow_ok projection hrefuses
  have hwidth : 0 < input.length := by
    have := (not_or.mp hrefuses).1
    omega
  have houtput : out.length = outputWidth :=
    Nat.eq_of_mul_eq_mul_right hwidth (hlength.trans hcount)
  refine ⟨out, hout, houtput, ?_⟩
  intro o ho hexact
  have hrow : o * input.length + input.length ≤ weight.values.length := by
    rw [hcount]
    exact Rows.row_le ho
  rw [List.getD_eq_getElem?_getD, hrows o (by omega), Option.getD_some,
    toRat_rowDot_eq_sum hrefuses hrow hexact]
  refine Finset.sum_congr rfl ?_
  intro i _
  rw [declaredIndex, if_pos rfl]

-- ---------------------------------------------------------------------------
-- Loaded linears
-- ---------------------------------------------------------------------------

/-- The rows of a loaded weight are wide enough, and in whole blocks. -/
def HasRows (ty : TensorType) (inputWidth outputWidth : Nat) : Prop :=
  0 < inputWidth ∧ if ty = .Q8_0 then 32 ∣ inputWidth else 0 < outputWidth

instance (ty : TensorType) (inputWidth outputWidth : Nat) :
    Decidable (HasRows ty inputWidth outputWidth) := inferInstanceAs (Decidable (_ ∧ _))

/-- A loaded linear holds its elements, and refuses a row exactly where it has none of its
width. -/
theorem refuses_iff_of_loaded {store : TensorStore} (hwell : store.WellSized)
    {sourceName tensorName : Str} {desc : TensorDescriptor} {weight : CpuTensor}
    {inputWidth outputWidth : Nat} (hdesc : store.descriptor sourceName = .ok desc)
    (hshape : desc.dims = [inputWidth, outputWidth] ∨ desc.dims = [outputWidth, inputWidth])
    (hload : store.loadQ8_0BlockBackedLinearAs sourceName tensorName = .ok weight)
    (htype : desc.tensorType ≠ .Q5_1) :
    weight.values.length = outputWidth * inputWidth ∧
      (weight.Refuses inputWidth ↔ ¬HasRows desc.tensorType inputWidth outputWidth) := by
  have hrank : desc.dims.length = 2 := by
    rcases hshape with h | h
    · rw [h]; rfl
    · rw [h]; rfl
  have hprod : desc.dims.prod = outputWidth * inputWidth := by
    rcases hshape with h | h
    · simp [h, Nat.mul_comm]
    · simp [h]
  obtain ⟨-, hstored⟩ := TensorStore.loadLinear_sized hwell hdesc hrank hload
  unfold CpuTensor.Refuses CpuTensor.values HasRows
  rcases hblocks : weight.q8_0Blocks with _ | blocks
  · -- plain values: whole rows, unless one of the two widths is zero
    rw [hblocks] at hstored
    dsimp only at hstored ⊢
    obtain ⟨hplain, hcount⟩ := hstored
    rw [decodedCount_of_ne htype, hprod] at hcount
    rw [if_neg hplain]
    refine ⟨hcount, ?_⟩
    have haligned : weight.data.length % inputWidth = 0 := by rw [hcount, Nat.mul_mod_left]
    constructor
    · rintro (hzero | hempty | hmod) ⟨hinput, houtput⟩
      · omega
      · rw [hempty] at hcount
        have hpos := Nat.mul_pos houtput hinput
        rw [← hcount] at hpos
        exact absurd hpos (by simp)
      · exact hmod haligned
    · intro hnone
      by_cases hzero : inputWidth = 0
      · exact .inl hzero
      · have houtput : outputWidth = 0 := by
          by_contra hne
          exact hnone ⟨by omega, by omega⟩
        rw [houtput, Nat.zero_mul] at hcount
        exact .inr (.inl (List.eq_nil_of_length_eq_zero hcount))
  · -- blocks of 32: the rows are whole where the input width is in whole blocks
    rw [hblocks] at hstored
    dsimp only at hstored ⊢
    obtain ⟨hblocked, hcount⟩ := hstored
    rw [if_pos hblocked]
    refine ⟨?_, ?_⟩
    · rw [Rows.length_flatMap_blocks Q8_0Block.length_dequantize, hcount, hprod]
    constructor
    · rintro (hzero | hmod | hrows) ⟨hinput, haligned⟩
      · omega
      · exact hmod (Nat.mod_eq_zero_of_dvd haligned)
      · have hblockCount : blocks.length = outputWidth * (inputWidth / 32) := by
          obtain ⟨q, rfl⟩ := haligned
          rw [Nat.mul_div_cancel_left _ (by decide)]
          rw [hprod, Nat.mul_comm 32 q, ← Nat.mul_assoc] at hcount
          exact Nat.eq_of_mul_eq_mul_right (by decide) hcount
        rw [hblockCount, Nat.mul_mod_left] at hrows
        exact hrows rfl
    · intro hnone
      by_cases hzero : inputWidth = 0
      · exact .inl hzero
      · refine .inr (.inl fun hmod => hnone ⟨by omega, Nat.dvd_of_mod_eq_zero hmod⟩)

/-- **Rows, whatever is declared.** A linear that was bound in either orientation and loaded
projects by the shape `[input, output]`, where it has rows of the input's width; where it has
none, it refuses every row. -/
theorem linear_projects {store : TensorStore} (hwell : store.WellSized)
    {sourceName tensorName : Str} {desc : TensorDescriptor} {weight : CpuTensor}
    {inputWidth outputWidth : Nat} {role : String}
    (hdesc : store.descriptor sourceName = .ok desc)
    (hbound : requireDescriptorMatrixShape desc inputWidth outputWidth role = .ok ())
    (hload : store.loadQ8_0BlockBackedLinearAs sourceName tensorName = .ok weight)
    (htype : desc.tensorType ≠ .Q5_1) (projection : Q8Projection) :
    if HasRows desc.tensorType inputWidth outputWidth then
      weight.ProjectsBy [inputWidth, outputWidth] projection inputWidth outputWidth
    else ∀ input : List F32, input.length = inputWidth →
      ∃ e, linearRow weight input projection = .err e := by
  obtain ⟨hcount, hrefuses⟩ := refuses_iff_of_loaded hwell hdesc
    (requireDescriptorMatrixShape_eq_ok.mp hbound) hload htype
  split
  · rename_i hrows
    exact CpuTensor.projectsBy_rows (fun h => hrefuses.mp h hrows) hcount projection
  · rename_i hnone
    rintro input rfl
    exact linearRow_refused projection (hrefuses.mpr hnone)

end Projection

-- ---------------------------------------------------------------------------
-- Six floats, either way
-- ---------------------------------------------------------------------------

section Residues

attribute [local instance] residueOps

/-- The descriptor of six floats in a matrix. -/
def sixDescriptor (dimensions : List UInt64) : TensorDescriptor :=
  ⟨['w'], dimensions, .F32, 0, 0, 24⟩

/-- A store of the floats from one to six. -/
def sixStore (dimensions : List UInt64) : TensorStore :=
  ⟨"model.gguf", [0, 0, 128, 63, 0, 0, 0, 64, 0, 0, 64, 64, 0, 0, 128, 64, 0, 0, 160, 64, 0, 0, 192,
    64], [sixDescriptor dimensions]⟩

/-- The matrix they are loaded into. -/
def sixTensor (dims : List Nat) : CpuTensor :=
  { name := ['w'], dims, sourceType := some .F32, q8_0Blocks := none, q4KWireBytes := none
    q5KWireBytes := none, q6KWireBytes := none, data := [1, 2, 3, 4, 5, 6] }

theorem sixStore_wellSized {dimensions : List UInt64} (h : elements dimensions = 6) :
    (sixStore dimensions).WellSized := by
  intro desc hdesc
  obtain rfl := List.mem_singleton.mp hdesc
  refine ⟨1, 4, rfl, Nat.one_dvd _, ?_⟩
  show 24 = elements dimensions / 1 * 4
  rw [h]

/-- A linear of two inputs and three outputs that declares `[3, 2]`: the row with a one in
the first place gets the elements one, three and five of the buffer, none of them rounded,
and the first row of the declared matrix holds one, two and three. -/
theorem transposed_linear_disregards_dims :
    requireDescriptorMatrixShape (sixDescriptor [3, 2]) 2 3 "linear" = .ok () ∧
      (sixStore [3, 2]).loadQ8_0BlockBackedLinear ['w'] = .ok (sixTensor [3, 2]) ∧
      linearRow (sixTensor [3, 2]) [1, 0] .portable = .ok [1, 3, 5] ∧
      (sixTensor [3, 2]).ExactRow [1, 0] 1 ∧
      ¬(sixTensor [3, 2]).ProjectsBy [3, 2] .portable 2 3 := by
  have hrow : linearRow (sixTensor [3, 2]) [1, 0] .portable = .ok [1, 3, 5] := by decide +kernel
  have hexact : (sixTensor [3, 2]).ExactRow [1, 0] 1 := ⟨by decide +kernel, by decide +kernel⟩
  refine ⟨by decide +kernel, by decide +kernel, hrow, hexact, ?_⟩
  intro hprojects
  obtain ⟨out, hout, -, hvalues⟩ := hprojects [1, 0] rfl
  obtain rfl := Outcome.ok.inj (hrow.symm.trans hout)
  exact absurd (hvalues 1 (by decide) hexact) (by decide +kernel)

/-- The same store, of which all three rows are projected without rounding. -/
theorem linear_projects_transposed :
    (∀ o < 3, (sixTensor [3, 2]).ExactRow [2, 1] o) ∧
      (sixTensor [3, 2]).ProjectsBy [2, 3] .portable 2 3 := by
  have hload : (sixStore [3, 2]).loadQ8_0BlockBackedLinear ['w'] = .ok (sixTensor [3, 2]) := by
    decide +kernel
  have hbound : requireDescriptorMatrixShape (sixDescriptor [3, 2]) 2 3 "linear" = .ok () := by
    decide +kernel
  have hdesc : (sixStore [3, 2]).descriptor ['w'] = .ok (sixDescriptor [3, 2]) := rfl
  have hprojects := linear_projects (sixStore_wellSized rfl) hdesc hbound hload (by decide) .portable
  rw [if_pos (by decide)] at hprojects
  refine ⟨fun o ho => ?_, hprojects⟩
  interval_cases o
  · exact ⟨by decide +kernel, by decide +kernel⟩
  · exact ⟨by decide +kernel, by decide +kernel⟩
  · exact ⟨by decide +kernel, by decide +kernel⟩

end Residues

end CamelidEnterprise

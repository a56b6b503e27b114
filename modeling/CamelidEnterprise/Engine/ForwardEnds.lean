import CamelidEnterprise.Engine.CausalRun
import CamelidEnterprise.Engine.LoadShapes
import CamelidEnterprise.Engine.Rotation

/-!
# Camelid Enterprise — how a forward pass ends

`Decoder::forward_token` of `crates/engine-core/src/forward/compute.rs` cuts its rows
by the widths of the decoder: a head of a row, a row of a matrix, a pair of a head.
Where the tensors that it cuts hold what their shapes say (`DenseModel.Sound`), every
cut is inside its buffer; where the checks that the loader leaves to the first token
also pass (`DenseModel.Served`), the only error left is that of an attention whose
weights have no finite sum.

The lemmas follow the layer: each kernel keeps the width of its rows, `project_ends`,
`attend_ends` and `finish_ends` the three parts of a layer, `nextStack_ends` the stack.

Key result: `step_ends`, how one token ends.
-/

namespace CamelidEnterprise

open Foundation Gguf

/-- A tensor of these dimensions, with a plain value for each element. -/
structure CpuTensor.Plain (tensor : CpuTensor) (dims : List Nat) : Prop where
  dims_eq : tensor.dims = dims
  length_eq : tensor.data.length = dims.prod

theorem CpuTensor.Plain.row_length {tensor : CpuTensor} {n : Nat} (h : tensor.Plain [1, n]) :
    tensor.data.length = n := by
  rw [h.length_eq, List.prod_pair, Nat.one_mul]

section Kernels

variable {allowed : EngineError → Prop}

/-- A matrix is made where its count of elements is a word and that of its data. -/
theorem CpuTensor.fromF32_ends {name : Str} {rows cols : Nat} {data : List F32}
    (hrows : rows < 2 ^ 64)
    (hlate : ¬(data.length = rows * cols ∧ rows * cols < 2 ^ 64) → ∀ e, allowed e) :
    (fromF32 name [rows, cols] data).Ends allowed fun out =>
      out.Plain [rows, cols] ∧ out.data = data := by
  unfold fromF32
  by_cases hlt : rows * cols < 2 ^ 64
  · rw [(elementCount_pair hrows).mpr ⟨rfl, hlt⟩, Outcome.ok_bind]
    split
    · rename_i hne
      exact hlate (fun h => hne h.1.symm) _
    · rename_i hlength
      refine ⟨⟨rfl, ?_⟩, rfl⟩
      rw [List.prod_pair]
      exact (not_not.mp hlength).symm
  · have hcount : elementCount [rows, cols] =
        .err (.InvalidTensorData "tensor element count overflow") := by
      unfold elementCount checkedMul
      rw [List.foldlM_cons, Nat.one_mul, if_pos hrows, Outcome.okOr_some, Outcome.ok_bind,
        List.foldlM_cons, if_neg hlt]
      rfl
    rw [hcount]
    exact hlate (fun h => hlt h.2) _

theorem CpuTensor.dim_eq {tensor : CpuTensor} {i n : Nat} (h : tensor.dims[i]? = some n) :
    tensor.dim i = .ok n := by
  unfold dim
  rw [h]
  rfl

theorem CpuTensor.requireRank_eq {tensor : CpuTensor} {rank : Nat} (op : String)
    (h : tensor.dims.length = rank) : requireRank tensor rank op = .ok () := by
  unfold requireRank
  exact if_neg (not_not.mpr h)

/-- Elementwise kernels read both tensors in full. -/
theorem CpuTensor.zipElements_ends {lhs rhs : CpuTensor} {n m : Nat} (hlhs : lhs.Plain [1, n])
    (hrhs : rhs.Plain [1, m]) (hlate : ¬(n = m ∧ n < 2 ^ 64) → ∀ e, allowed e) (name : Str)
    (f : F32 → F32 → F32) : (zipElements lhs rhs name f).Ends allowed (·.Plain [1, n]) := by
  have hln := hlhs.row_length
  have hrm := hrhs.row_length
  unfold zipElements
  rw [hlhs.dims_eq, hrhs.dims_eq]
  split
  · rename_i hne
    exact hlate (fun h => hne (by rw [h.1])) _
  · rename_i hsame
    obtain rfl : n = m := by simpa using hsame
    refine Outcome.Ends.bind (Outcome.ends_mapM_ok ?_) fun out hout => ?_
    · rintro ⟨a, i⟩ hmem
      have hi := List.snd_lt_of_mem_zipIdx hmem
      dsimp only
      rw [List.getElem?_eq_getElem (by omega)]
      exact ⟨_, rfl⟩
    · refine (fromF32_ends (by decide) fun h => hlate fun hfits => h ?_).mono fun out h => h.1
      rw [List.length_zipIdx] at hout
      omega

variable [FloatOps]

theorem CpuTensor.rmsNormRow_ends {weight values : List F32} {n : Nat}
    (hvalues : values.length = n) (hweight : weight.length = n) (eps : F32) :
    (rmsNormRow weight eps values).Ends allowed (·.length = n) := by
  unfold rmsNormRow
  refine (Outcome.ends_mapM_ok ?_).mono fun out hout => ?_
  · rintro ⟨v, col⟩ hmem
    have hcol := List.snd_lt_of_mem_zipIdx hmem
    dsimp only
    rw [List.getElem?_eq_getElem (by omega)]
    exact ⟨_, rfl⟩
  · rw [hout, List.length_zipIdx, hvalues]

/-- A norm reads its weight and every row in full. -/
theorem CpuTensor.rmsNorm_ends {tensor weight : CpuTensor} {rows cols n : Nat}
    (htensor : tensor.Plain [rows, cols]) (hweight : weight.Plain [n]) (hrows : rows < 2 ^ 64)
    (hlate : ¬(n = cols ∧ rows * cols < 2 ^ 64) → ∀ e, allowed e) (eps : F32) (name : Str) :
    (tensor.rmsNorm weight eps name).Ends allowed (·.Plain [rows, cols]) := by
  have hdata : tensor.data.length = rows * cols := by rw [htensor.length_eq, List.prod_pair]
  unfold rmsNorm
  rw [requireRank_eq _ (by rw [htensor.dims_eq]; rfl), Outcome.ok_bind,
    requireRank_eq _ (by rw [hweight.dims_eq]; rfl), Outcome.ok_bind,
    dim_eq (by rw [htensor.dims_eq]; rfl), Outcome.ok_bind,
    dim_eq (by rw [htensor.dims_eq]; rfl), Outcome.ok_bind,
    dim_eq (by rw [hweight.dims_eq]; rfl), Outcome.ok_bind]
  split
  · rename_i hne
    exact hlate (fun h => hne h.1) _
  · rename_i hsame
    obtain rfl := not_not.mp hsame
    have hweightLen : weight.data.length = n := by rw [hweight.length_eq, List.prod_singleton]
    refine Outcome.Ends.bind (Outcome.Ends.mapM fun row hrow => ?_)
      fun out (hout : _ ∧ ∀ values ∈ out, values.length = n) => ?_
    · have hle : row * n + n ≤ tensor.data.length := by
        rw [hdata]
        exact Rows.row_le (List.mem_range.mp hrow)
      unfold Rows.row
      rw [Rows.slice_of_le hle]
      refine rmsNormRow_ends ?_ hweightLen eps
      rw [List.length_take, List.length_drop]
      omega
    · rw [htensor.dims_eq]
      refine (fromF32_ends hrows fun h => hlate fun hfits => h ⟨?_, hfits.2⟩).mono fun out h => h.1
      rw [List.length_append, Rows.length_flatten hout.2, hout.1, List.length_range,
        List.length_replicate, hdata, Nat.sub_self, Nat.add_zero]

/-- The norm of each head of a row. -/
theorem CpuTensor.perHeadRmsNorm_ends {tensor weight : CpuTensor} {headCount headDim : Nat}
    (htensor : tensor.Plain [1, headCount * headDim]) (hweight : weight.Plain [headDim])
    (hheads : 0 < headCount) (hbound : headCount < 2 ^ 64) (hwidth : headCount * headDim < 2 ^ 64)
    (eps : F32) (name : Str) :
    (tensor.perHeadRmsNorm weight headCount eps name).Ends allowed
      (·.Plain [1, headCount * headDim]) := by
  have hdata := htensor.row_length
  have hmul : plainMul 1 headCount = .ok headCount :=
    plainMul_eq_ok.mpr ⟨(Nat.one_mul _).symm, by omega⟩
  unfold perHeadRmsNorm
  rw [requireRank_eq _ (by rw [htensor.dims_eq]; rfl), Outcome.ok_bind,
    dim_eq (by rw [htensor.dims_eq]; rfl), Outcome.ok_bind,
    dim_eq (by rw [htensor.dims_eq]; rfl), Outcome.ok_bind, if_neg, hmul, Outcome.ok_bind,
    Nat.mul_div_cancel_left _ hheads]
  · refine (fromF32_ends hbound fun h => absurd ⟨hdata, hwidth⟩ h).bind fun perHead hperHead => ?_
    refine (rmsNorm_ends hperHead.1 hweight hbound (fun h => absurd ⟨rfl, hwidth⟩ h) eps
      name).bind fun normed hnormed => ?_
    refine (fromF32_ends (by decide) fun h => absurd ⟨?_, ?_⟩ h).mono fun out h => h.1
    · rw [hnormed.length_eq, List.prod_pair, Nat.one_mul]
    · rwa [Nat.one_mul]
  · rw [Nat.mul_mod_right]
    omega

/-- A projection keeps as many outputs as its weight has rows. -/
theorem linearRow_ends {weight : CpuTensor} {input : List F32} {width : Nat}
    (hwidth : input.length = width) (hlate : weight.Refuses width → ∀ e, allowed e)
    (projection : Q8Projection) : (linearRow weight input projection).Ends allowed fun out =>
      0 < width ∧ out.length * width = weight.values.length := by
  subst hwidth
  by_cases hrefuses : weight.Refuses input.length
  · obtain ⟨e, herr⟩ := linearRow_refused projection hrefuses
    rw [herr]
    exact hlate hrefuses e
  · obtain ⟨out, hout, hlength, -⟩ := linearRow_ok projection hrefuses
    refine .of_eq_ok hout ⟨Nat.pos_of_ne_zero ?_, hlength⟩
    exact fun h => hrefuses (.inl h)

end Kernels


-- ---------------------------------------------------------------------------
-- Rotation
-- ---------------------------------------------------------------------------

section Rope

variable {allowed : EngineError → Prop} [FloatOps]

/-- What the checks of a rotation ask of a configuration, at a width of the heads. -/
structure LlamaModelConfig.Rotates (config : LlamaModelConfig) (headDim : Nat) : Prop where
  ropeDim_pos : 0 < config.ropeDim headDim
  ropeDim_le : config.ropeDim headDim ≤ headDim
  ropeDim_even : config.ropeDim headDim % 2 = 0
  freqBase : ((config.ropeFreqBase.map F32.mk).getD 10000).le 0 = false ∧
    ((config.ropeFreqBase.map F32.mk).getD 10000).isFinite = true
  scaling : ∃ scaling, ropeScalingFromConfig config = .ok scaling

theorem checkFrequencyFactors_noFault (frequencies : List F32) :
    (checkFrequencyFactors frequencies).NoFault := by
  unfold checkFrequencyFactors
  split
  · exact Outcome.noFault_err _
  · exact Outcome.noFault_ok _

theorem validateRopeFrequencyTensor_noFault (tensor : CpuTensor) (ropeDim : Nat) :
    (validateRopeFrequencyTensor tensor ropeDim).NoFault := by
  unfold validateRopeFrequencyTensor
  dsimp only
  split
  · exact Outcome.noFault_err _
  · exact (checkFrequencyFactors_noFault _).bind fun _ _ => Outcome.noFault_ok _

omit [FloatOps] in
theorem originalContextLength_noFault (config : LlamaModelConfig) (kind : String) :
    (originalContextLength config kind).NoFault := by
  unfold originalContextLength
  dsimp only
  split
  · exact Outcome.noFault_err _
  · exact Outcome.noFault_ok _

theorem ropeScalingFromConfig_noFault (config : LlamaModelConfig) :
    (ropeScalingFromConfig config).NoFault := by
  have hkind : (ropeScalingKind config.ropeScalingType).NoFault := by
    unfold ropeScalingKind
    split
    · exact Outcome.noFault_ok _
    · split
      · exact Outcome.noFault_ok _
      · split
        · exact Outcome.noFault_ok _
        · split
          · exact Outcome.noFault_ok _
          · split
            · exact Outcome.noFault_ok _
            · exact Outcome.noFault_err _
  unfold ropeScalingFromConfig
  refine hkind.bind fun kind _ => ?_
  rcases kind
  all_goals
    dsimp only
    split
    · exact Outcome.noFault_err _
  · exact Outcome.noFault_ok _
  · exact Outcome.noFault_ok _
  · refine (originalContextLength_noFault _ _).bind fun length _ => ?_
    split
    · exact Outcome.noFault_err _
    · exact Outcome.noFault_ok _
  · exact (originalContextLength_noFault _ _).bind fun length _ => Outcome.noFault_ok _

theorem ropeParams_noFault (width headCount : Nat) (config : LlamaModelConfig)
    (ropeFreqs : Option CpuTensor) : (ropeParams width headCount config ropeFreqs).NoFault := by
  unfold ropeParams
  dsimp only
  split
  · exact Outcome.noFault_err _
  split
  · exact Outcome.noFault_err _
  split
  · exact Outcome.noFault_err _
  split
  · exact Outcome.noFault_err _
  refine (ropeScalingFromConfig_noFault _).bind fun scaling _ => ?_
  rcases ropeFreqs with _ | tensor
  · exact Outcome.noFault_ok _
  · refine (validateRopeFrequencyTensor_noFault tensor _).bind fun _ _ => ?_
    exact Outcome.noFault_ok _

/-- The checks of a rotation, of a row of whole heads. -/
theorem ropeParams_returns {headCount headDim : Nat} {config : LlamaModelConfig}
    {ropeFreqs : Option CpuTensor} (hheads : 0 < headCount) (hrotates : config.Rotates headDim)
    (htable : ∀ tensor, ropeFreqs = some tensor →
      ∃ freqs, validateRopeFrequencyTensor tensor (config.ropeDim headDim) = .ok freqs) :
    ∃ params, ropeParams (headCount * headDim) headCount config ropeFreqs = .ok params := by
  obtain ⟨scaling, hscaling⟩ := hrotates.scaling
  have hpos := hrotates.ropeDim_pos
  have hle := hrotates.ropeDim_le
  have heven := hrotates.ropeDim_even
  unfold ropeParams
  dsimp only
  rw [if_neg (by omega), if_neg (by rw [Nat.mul_mod_right]; omega),
    Nat.mul_div_cancel_left _ hheads, if_neg (by omega),
    if_neg (by rw [hrotates.freqBase.1, hrotates.freqBase.2]; simp), hscaling, Outcome.ok_bind]
  rcases ropeFreqs with _ | tensor
  · exact ⟨_, rfl⟩
  · obtain ⟨freqs, hfreqs⟩ := htable tensor rfl
    dsimp only
    rw [hfreqs]
    exact ⟨_, rfl⟩

/-- A rotation reads and writes inside its row. -/
theorem applyRope_ends {row : List F32} {headCount headDim : Nat} {config : LlamaModelConfig}
    {ropeFreqs : Option CpuTensor} (hrow : row.length = headCount * headDim)
    (hfull : ∀ tensor, ropeFreqs = some tensor → tensor.data.length = tensor.dims.prod)
    (hlate : ¬(∃ params, ropeParams row.length headCount config ropeFreqs = .ok params) →
      ∀ e, allowed e) (position : Nat) :
    (applyRope row position headCount config ropeFreqs).Ends allowed
      (·.length = headCount * headDim) := by
  rw [← hrow]
  unfold applyRope
  rcases hparams : ropeParams row.length headCount config ropeFreqs with params | e | k
  · obtain ⟨hfits, -, -, hscaling, hfreqs⟩ := ropeParams_ok hparams
    rw [Outcome.ok_bind]
    have hreturns : ∃ out, applyRopeToRow row position params = .ok out := by
      refine applyRopeToRow_returns hfits fun pairIdx hpair => ?_
      refine ropePairFrequency_returns (fun freqs hsome => ?_) (ropeScalingFromConfig_llama3 hscaling)
      obtain ⟨tensor, hrope, hdims, hdata⟩ := hfreqs freqs hsome
      rw [← hdata, hfull tensor hrope, hdims, List.prod_singleton]
      exact hpair
    obtain ⟨out, hout⟩ := hreturns
    exact .of_eq_ok hout (applyRopeToRow_ok hfits hout).length
  · refine hlate ?_ e
    rintro ⟨params, h⟩
    rw [hparams] at h
    exact absurd h (by simp)
  · exact absurd hparams (ropeParams_noFault _ _ _ _ k)

end Rope

-- ---------------------------------------------------------------------------
-- Weights
-- ---------------------------------------------------------------------------

section Layers

variable [FloatOps]

/-- A projection from rows of one width to another. -/
structure CpuTensor.Projects (weight : CpuTensor) (inputWidth outputWidth : Nat) : Prop where
  length_eq : weight.values.length = outputWidth * inputWidth
  accepts : ¬weight.Refuses inputWidth

/-- The norms of a layer and its query, key and value projections hold what their shapes say. -/
structure LlamaLayerWeights.Sound (layer : LlamaLayerWeights) (dims : DenseLlamaDims) : Prop where
  attentionNorm : layer.attentionNorm.Plain [dims.embeddingLength]
  attentionQ : layer.attentionQ.values.length = dims.qWidth * dims.embeddingLength
  attentionK : layer.attentionK.values.length = dims.kvWidth * dims.embeddingLength
  attentionV : layer.attentionV.values.length = dims.kvWidth * dims.embeddingLength
  qkNorms :
    (layer.attentionQNorm = none ∧ layer.attentionKNorm = none) ∨
      ∃ qNorm kNorm, layer.attentionQNorm = some qNorm ∧ layer.attentionKNorm = some kNorm ∧
        qNorm.Plain [dims.headDim] ∧ kNorm.Plain [dims.headDim]
  ffnNorm : layer.ffnNorm.Plain [dims.embeddingLength]

/-- Every projection of a layer takes the rows it is handed. -/
structure LlamaLayerWeights.Served (layer : LlamaLayerWeights) (dims : DenseLlamaDims) : Prop where
  attentionQ : layer.attentionQ.Projects dims.embeddingLength dims.qWidth
  attentionK : layer.attentionK.Projects dims.embeddingLength dims.kvWidth
  attentionV : layer.attentionV.Projects dims.embeddingLength dims.kvWidth
  attentionOutput : layer.attentionOutput.Projects dims.qWidth dims.embeddingLength
  ffnGate : layer.ffnGate.Projects dims.embeddingLength dims.feedForwardLength
  ffnUp : layer.ffnUp.Projects dims.embeddingLength dims.feedForwardLength
  ffnDown : layer.ffnDown.Projects dims.feedForwardLength dims.embeddingLength

namespace DenseModel

/-- The widths of a decoder are words. -/
structure Words (model : DenseModel) : Prop where
  embedding : model.dims.embeddingLength < 2 ^ 64
  hidden : model.dims.embeddingLength * 4 < 2 ^ 63
  feedForward : model.dims.feedForwardLength < 2 ^ 64
  heads : model.config.attentionHeadCount < 2 ^ 64
  kvHeads : model.dims.attentionHeadCountKv < 2 ^ 64
  qWidth : model.dims.qWidth < 2 ^ 64
  kvWidth : model.dims.kvWidth < 2 ^ 64
  vocab : model.dims.vocabSize < 2 ^ 64

theorem qWidth_eq (model : DenseModel) :
    model.dims.qWidth = model.config.attentionHeadCount * model.dims.headDim := by
  obtain ⟨-, vocab, -, hdims⟩ := DenseLlamaDims.fromConfig_eq_ok.mp model.dims_eq
  rw [hdims]

theorem kvWidth_eq (model : DenseModel) :
    model.dims.kvWidth = model.dims.attentionHeadCountKv * model.dims.headDim := by
  obtain ⟨-, vocab, -, hdims⟩ := DenseLlamaDims.fromConfig_eq_ok.mp model.dims_eq
  rw [hdims]

theorem heads_pos (model : DenseModel) : 0 < model.config.attentionHeadCount := model.dense.heads_pos

theorem kvHeads_pos (model : DenseModel) : 0 < model.dims.attentionHeadCountKv := by
  rw [model.dims_kv]
  exact model.dense.kv_pos

/-- The table of frequencies is as long as its shape says. -/
def TableFull (model : DenseModel) : Prop :=
  ∀ tensor, model.weights.ropeFreqs = some tensor → tensor.data.length = tensor.dims.prod

/-- The table of frequencies was checked with the weights. -/
theorem ropeTable (model : DenseModel) (tensor : CpuTensor)
    (h : model.weights.ropeFreqs = some tensor) :
    ∃ freqs, validateRopeFrequencyTensor tensor (model.config.ropeDim model.dims.headDim) =
      .ok freqs := by
  obtain ⟨-, -, -, hrope, -⟩ := LlamaWeights.shaped_of_validate model.dims_eq model.shapes
  unfold LlamaWeights.validateRopeFreqs at hrope
  rw [h] at hrope
  dsimp only at hrope
  unfold LlamaWeights.validateRopeFrequencyTensor at hrope
  split at hrope
  · exact absurd hrope (by simp)
  · obtain ⟨freqs, hfreqs, -⟩ := Outcome.bind_eq_ok.mp hrope
    exact ⟨freqs, hfreqs⟩

section Layer

variable {model : DenseModel} {layer : LlamaLayerWeights} {hidden : CpuTensor}
  {allowed : EngineError → Prop}

/-- A projection of a weight of so many values. -/
theorem linearRow_width {weight : CpuTensor} {input : List F32} {width rows : Nat}
    (hwidth : input.length = width) (hvalues : weight.values.length = rows * width)
    (hlate : ¬weight.Projects width rows → ∀ e, allowed e) (projection : Q8Projection) :
    (linearRow weight input projection).Ends allowed (·.length = rows) := by
  refine (linearRow_ends hwidth (fun h => hlate fun hfits => hfits.accepts h) projection).mono ?_
  rintro out ⟨hpos, hlength⟩
  rw [hvalues] at hlength
  exact Nat.eq_of_mul_eq_mul_right hpos hlength

/-- The QK norms keep the widths of a query and a key row. -/
theorem qkNorm_ends (hwords : model.Words) (hlayer : layer.Sound model.dims) {q k : List F32}
    (hq : q.length = model.dims.qWidth) (hk : k.length = model.dims.kvWidth) :
    (model.decoder.qkNorm layer q k).Ends allowed fun out =>
      out.1.length = model.dims.qWidth ∧ out.2.length = model.dims.kvWidth := by
  unfold Decoder.qkNorm
  rcases hlayer.qkNorms with ⟨hqNorm, hkNorm⟩ | ⟨qNorm, kNorm, hqNorm, hkNorm, hqPlain, hkPlain⟩
  · rw [hqNorm, hkNorm]
    exact ⟨hq, hk⟩
  · have hqWidth := hwords.qWidth
    have hkWidth := hwords.kvWidth
    rw [hqNorm, hkNorm]
    dsimp only
    rw [hq, hk]
    rw [model.qWidth_eq] at hq hqWidth ⊢
    rw [model.kvWidth_eq] at hk hkWidth ⊢
    refine (CpuTensor.fromF32_ends (by decide) fun h => absurd ?_ h).bind fun qTensor hqTensor => ?_
    · rw [hq]
      omega
    refine (CpuTensor.perHeadRmsNorm_ends hqTensor.1 hqPlain model.heads_pos hwords.heads hqWidth
      _ _).bind fun qOut hqOut => ?_
    refine (CpuTensor.fromF32_ends (by decide) fun h => absurd ?_ h).bind fun kTensor hkTensor => ?_
    · rw [hk]
      omega
    refine (CpuTensor.perHeadRmsNorm_ends hkTensor.1 hkPlain model.kvHeads_pos hwords.kvHeads
      hkWidth _ _).bind fun kOut hkOut => ?_
    exact ⟨CpuTensor.Plain.row_length hqOut, CpuTensor.Plain.row_length hkOut⟩

/-- The query, key and value rows have the widths of the decoder. -/
theorem project_ends (hwords : model.Words) (htable : model.TableFull)
    (hlayer : layer.Sound model.dims)
    (hlate : ¬(layer.Served model.dims ∧ model.config.Rotates model.dims.headDim) →
      ∀ e, allowed e)
    (hhidden : hidden.Plain [1, model.dims.embeddingLength]) (position : Nat) :
    (model.decoder.project layer position hidden).Ends allowed fun out =>
      out.1.length = model.dims.qWidth ∧ out.2.1.length = model.dims.kvWidth ∧
        out.2.2.length = model.dims.kvWidth := by
  have hemb := hwords.embedding
  -- a rotation of whole heads is refused for the configuration alone
  have hrope : ∀ (row : List F32) (heads : Nat), 0 < heads →
      row.length = heads * model.dims.headDim →
      (applyRope row position heads model.config model.weights.ropeFreqs).Ends allowed
        (·.length = heads * model.dims.headDim) := by
    intro row heads hheads hrow
    refine applyRope_ends hrow htable (fun hrefused => hlate fun hserved => hrefused ?_) position
    rw [hrow]
    exact ropeParams_returns hheads hserved.2 model.ropeTable
  unfold Decoder.project
  refine (CpuTensor.rmsNorm_ends hhidden hlayer.attentionNorm (by decide)
    (fun h => absurd ⟨rfl, by omega⟩ h) _ _).bind fun attnNorm hnorm => ?_
  have hinput := CpuTensor.Plain.row_length hnorm
  refine (linearRow_width hinput hlayer.attentionQ
    (fun h => hlate fun hserved => h hserved.1.attentionQ) _).bind fun q hq => ?_
  refine (linearRow_width hinput hlayer.attentionK
    (fun h => hlate fun hserved => h hserved.1.attentionK) _).bind fun k hk => ?_
  refine (linearRow_width hinput hlayer.attentionV
    (fun h => hlate fun hserved => h hserved.1.attentionV) _).bind fun v hv => ?_
  refine (qkNorm_ends hwords hlayer hq hk).bind fun normed hnormed => ?_
  obtain ⟨hq, hk⟩ := hnormed
  rw [model.qWidth_eq] at hq ⊢
  rw [model.kvWidth_eq] at hk hv ⊢
  refine (hrope _ _ model.heads_pos hq).bind fun q hq => ?_
  refine (hrope _ _ model.kvHeads_pos hk).bind fun k hk => ?_
  exact ⟨hq, hk, hv⟩

/-- A key and a value row of every head. -/
def RowsWide (model : DenseModel) (rows : HeadRows) : Prop :=
  rows.length = model.dims.attentionHeadCountKv ∧
    ∀ row ∈ rows, row.1.length = model.dims.headDim ∧ row.2.length = model.dims.headDim

/-- A position leaves a row of every head. -/
theorem leave_ends {k v : List F32} (hk : k.length = model.dims.kvWidth)
    (hv : v.length = model.dims.kvWidth) :
    (model.decoder.leave k v (List.range model.dims.attentionHeadCountKv)).Ends allowed
      model.RowsWide := by
  rw [model.kvWidth_eq] at hk hv
  have hslice : ∀ (row : List F32) (head : Nat), head < model.dims.attentionHeadCountKv →
      row.length = model.dims.attentionHeadCountKv * model.dims.headDim →
      ∃ part, Rows.row row model.dims.headDim head = some part ∧
        part.length = model.dims.headDim := by
    intro row head hhead hrow
    have hle := Rows.row_le (w := model.dims.headDim) hhead
    refine ⟨_, Rows.slice_of_le (by omega), ?_⟩
    rw [List.length_take, List.length_drop]
    omega
  unfold Decoder.leave
  refine (Outcome.Ends.mapM fun head hhead => ?_).mono
    fun rows (hrows : _ ∧ ∀ row ∈ rows, row.1.length = model.dims.headDim ∧
      row.2.length = model.dims.headDim) => ?_
  · obtain ⟨key, hkey, hkeyLen⟩ := hslice k head (List.mem_range.mp hhead) hk
    obtain ⟨value, hvalue, hvalueLen⟩ := hslice v head (List.mem_range.mp hhead) hv
    have hrow : model.decoder.headRow k v head = .ok (key, value) := by
      unfold Decoder.headRow
      show (do
        let key ← Outcome.orPanic (Rows.row k model.dims.headDim head)
        let value ← Outcome.orPanic (Rows.row v model.dims.headDim head)
        .ok (key, value) : EngineResult (List F32 × List F32)) = _
      rw [hkey, hvalue]
      rfl
    rw [hrow, Outcome.ok_bind]
    unfold roundRow
    exact ⟨by rw [List.length_map, hkeyLen], by rw [List.length_map, hvalueLen]⟩
  · exact ⟨by rw [hrows.1, List.length_range], hrows.2⟩

-- ---------------------------------------------------------------------------
-- Attention
-- ---------------------------------------------------------------------------

def softmaxMessage : String := "attention softmax produced an invalid normalization sum"

/-- The error of an attention whose weights have no usable sum. -/
def softmaxError : EngineError := .ShapeMismatch softmaxMessage

theorem length_axpy (probability : F32) (out value : List F32) :
    (axpy probability out value).length = out.length := by
  unfold axpy
  rw [List.length_append, List.length_zipWith, List.length_drop]
  omega

theorem length_foldl_axpy (scored : List (F32 × List F32 × List F32)) (invSum : F32)
    (out : List F32) : (scored.foldl
      (fun out scored => axpy (scored.1 * invSum) out scored.2.2) out).length = out.length := by
  induction scored generalizing out with
  | nil => rfl
  | cons first scored ih => rw [List.foldl_cons, ih, length_axpy]

/-- The attention of a head reads the rows of its key and value head in full, and fails only
for the sum of its weights. -/
theorem attendHead_ends (hfloat : allowed softmaxError) {qHead : List F32} {kvHead : Nat}
    {history : List HeadRows} (hq : qHead.length = model.dims.headDim)
    (hhead : kvHead < model.dims.attentionHeadCountKv)
    (hhistory : ∀ heads ∈ history, model.RowsWide heads) :
    (attendHead model.dims.headDim qHead kvHead history).Ends allowed
      (·.length = model.dims.headDim) := by
  unfold attendHead
  refine Outcome.Ends.bind (Outcome.Ends.mapM fun heads hmem => ?_)
    fun rows (hrows : _ ∧ ∀ row ∈ rows, row.1.length = model.dims.headDim ∧
      row.2.length = model.dims.headDim) => ?_
  · obtain ⟨hlen, hall⟩ := hhistory heads hmem
    exact Outcome.ends_orPanic (List.getElem?_eq_getElem (by omega)) (hall _ (List.getElem_mem _))
  split
  · rename_i first
    exact (hrows.2 first (List.mem_singleton_self _)).2
  · refine Outcome.Ends.bind (Outcome.ends_mapM_ok fun row hrow => ?_) fun scores _ => ?_
    · unfold dotProduct
      rw [if_neg (by rw [(hrows.2 row hrow).1, hq]; omega)]
      exact ⟨_, rfl⟩
    · unfold softmaxScores
      dsimp only
      split
      · exact hfloat
      · show List.length (List.foldl _ _ _) = _
        rw [length_foldl_axpy, List.length_replicate]

/-- The context of a query row is as wide as the query. -/
theorem attend_ends (hfloat : allowed softmaxError) {q : List F32}
    (hq : q.length = model.dims.qWidth) {history : List HeadRows}
    (hhistory : ∀ heads ∈ history, model.RowsWide heads) :
    (model.decoder.attend q history).Ends allowed (·.length = model.dims.qWidth) := by
  rw [model.qWidth_eq] at hq ⊢
  unfold Decoder.attend
  refine Outcome.Ends.bind (Outcome.Ends.mapM fun head hmem => ?_)
    fun heads (hheads : _ ∧ ∀ out ∈ heads, out.length = model.dims.headDim) => ?_
  · have hlt : head < model.config.attentionHeadCount := List.mem_range.mp hmem
    have hle := Rows.row_le (w := model.dims.headDim) hlt
    have hslice : Rows.row q model.dims.headDim head =
        some ((q.drop (head * model.dims.headDim)).take model.dims.headDim) :=
      Rows.slice_of_le (by omega)
    have hwidth : model.decoder.dims.headDim = model.dims.headDim := rfl
    rw [hwidth, hslice]
    refine attendHead_ends hfloat ?_ (model.kvHead_lt hlt).2 hhistory
    rw [List.length_take, List.length_drop]
    omega
  · show heads.flatten.length = _
    rw [Rows.length_flatten hheads.2, hheads.1, List.length_range]
    rfl

-- ---------------------------------------------------------------------------
-- One token
-- ---------------------------------------------------------------------------

/-- The rest of a layer keeps the width of its input. -/
theorem finish_ends (hwords : model.Words) (hlayer : layer.Sound model.dims)
    (hlate : ¬layer.Served model.dims → ∀ e, allowed e)
    (hhidden : hidden.Plain [1, model.dims.embeddingLength]) {context : List F32}
    (hcontext : context.length = model.dims.qWidth) :
    (model.decoder.finish layer hidden context).Ends allowed
      (·.Plain [1, model.dims.embeddingLength]) := by
  have hemb := hwords.embedding
  have hff := hwords.feedForward
  -- a projection has the outputs of its shape, or may fail behind
  have hproject : ∀ (weight : CpuTensor) (input : List F32) (width rows : Nat),
      input.length = width ∨ (∀ e, allowed e) → (layer.Served model.dims → weight.Projects width rows) →
      (linearRow weight input model.decoder.projection).Ends allowed
        fun out => out.length = rows ∨ ∀ e, allowed e := by
    intro weight input width rows hwidth hserved
    by_cases hprojects : weight.Projects width rows
    · rcases hwidth with hwidth | hall
      · exact (linearRow_width hwidth hprojects.length_eq (fun h => absurd hprojects h) _).mono
          fun out h => .inl h
      · exact (linearRow_ends rfl (fun _ => hall) _).mono fun out _ => .inr hall
    · have hall := hlate fun h => hprojects (hserved h)
      exact (linearRow_ends rfl (fun _ => hall) _).mono fun out _ => .inr hall
  have hrow : ∀ (name : Str) (data : List F32) (width : Nat), width < 2 ^ 64 →
      data.length = width ∨ (∀ e, allowed e) →
      (CpuTensor.fromF32 name [1, data.length] data).Ends allowed
        fun out => out.Plain [1, data.length] := by
    intro name data width hwidth hdata
    refine (CpuTensor.fromF32_ends (by decide) fun h => ?_).mono fun out h => h.1
    rcases hdata with hdata | hall
    · exact absurd ⟨(Nat.one_mul _).symm, by omega⟩ h
    · exact hall
  have hsame : ∀ {n m width : Nat}, width < 2 ^ 64 → n = width ∨ (∀ e, allowed e) →
      m = width ∨ (∀ e, allowed e) → ¬(n = m ∧ n < 2 ^ 64) → ∀ e, allowed e := by
    intro n m width hwidth hn hm h
    rcases hn with hn | hall
    · rcases hm with hm | hall
      · exact absurd ⟨by omega, by omega⟩ h
      · exact hall
    · exact hall
  unfold Decoder.finish
  refine (hproject _ _ _ _ (.inl hcontext) LlamaLayerWeights.Served.attentionOutput).bind
    fun attnOutData hattnOutData => ?_
  refine (hrow _ _ _ hemb hattnOutData).bind fun attnOut hattnOut => ?_
  refine (CpuTensor.zipElements_ends hhidden hattnOut (hsame hemb (.inl rfl) hattnOutData) _ _).bind
    fun residual hresidual => ?_
  refine (CpuTensor.rmsNorm_ends hresidual hlayer.ffnNorm (by decide)
    (fun h => absurd ⟨rfl, by omega⟩ h) _ _).bind fun ffnNorm hffnNorm => ?_
  refine (hproject _ _ _ _ (.inl hffnNorm.row_length) LlamaLayerWeights.Served.ffnGate).bind
    fun gate hgate => ?_
  refine (hproject _ _ _ _ (.inl hffnNorm.row_length) LlamaLayerWeights.Served.ffnUp).bind
    fun up hup => ?_
  refine (hrow _ _ _ hff hgate).bind fun gateTensor hgateTensor => ?_
  refine (hrow _ _ _ hff hup).bind fun upTensor hupTensor => ?_
  refine (CpuTensor.zipElements_ends hgateTensor hupTensor (hsame hff hgate hup) _ _).bind
    fun activated hactivated => ?_
  refine (hproject _ _ _ _ (hactivated.row_length ▸ hgate) LlamaLayerWeights.Served.ffnDown).bind
    fun ffnOutData hffnOutData => ?_
  refine (hrow _ _ _ hemb hffnOutData).bind fun ffnOut hffnOut => ?_
  exact CpuTensor.zipElements_ends hresidual hffnOut (hsame hemb (.inl rfl) hffnOutData) _ _

theorem causalLayer_ends (hwords : model.Words) (htable : model.TableFull)
    (hfloat : allowed softmaxError) (hlayer : layer.Sound model.dims)
    (hlate : ¬(layer.Served model.dims ∧ model.config.Rotates model.dims.headDim) →
      ∀ e, allowed e)
    (hhidden : hidden.Plain [1, model.dims.embeddingLength]) {history : List HeadRows}
    (hhistory : ∀ heads ∈ history, model.RowsWide heads) :
    ((model.decoder.causalLayer layer).next history hidden).Ends allowed fun out =>
      out.1.Plain [1, model.dims.embeddingLength] ∧ model.RowsWide out.2 := by
  unfold CausalLayer.next Decoder.causalLayer
  dsimp only
  refine Outcome.Ends.bind (Outcome.Ends.bind
    (project_ends hwords htable hlayer hlate hhidden _) fun projected hprojected =>
      Outcome.Ends.bind (leave_ends hprojected.2.1 hprojected.2.2) fun rows hrows => ?_)
    fun projected (hprojected : projected.1.length = model.dims.qWidth ∧
      model.RowsWide projected.2) => ?_
  · exact ⟨hprojected.1, hrows⟩
  refine Outcome.Ends.bind (Outcome.Ends.bind (attend_ends hfloat hprojected.1 ?_)
    fun context hcontext => finish_ends hwords hlayer (fun h => hlate fun hserved => h hserved.1)
      hhidden hcontext) fun output houtput => ?_
  · intro heads hmem
    rcases List.mem_append.mp hmem with hmem | hmem
    · exact hhistory heads hmem
    · rw [List.mem_singleton.mp hmem]
      exact hprojected.2
  · exact ⟨houtput, hprojected.2⟩

/-- The stack keeps the width of its input. By induction on the layers. -/
theorem nextStack_ends (hwords : model.Words) (htable : model.TableFull)
    (hfloat : allowed softmaxError) {layers : List LlamaLayerWeights}
    (hlayers : ∀ layer ∈ layers, layer.Sound model.dims)
    (hlate : ¬((∀ layer ∈ layers, layer.Served model.dims) ∧
      model.config.Rotates model.dims.headDim) → ∀ e, allowed e) :
    ∀ {histories : List (List HeadRows)} {hidden : CpuTensor},
      (∀ history ∈ histories, ∀ heads ∈ history, model.RowsWide heads) →
      hidden.Plain [1, model.dims.embeddingLength] →
      (CausalLayer.nextStack (layers.map model.decoder.causalLayer) histories hidden).Ends allowed
        (·.1.Plain [1, model.dims.embeddingLength]) := by
  induction layers with
  | nil => exact fun _ hhidden => hhidden
  | cons layer layers ih =>
    intro histories hidden hhistories hhidden
    rw [List.map_cons, CausalLayer.nextStack]
    have hfirst : ∀ heads ∈ histories.headD [], model.RowsWide heads := by
      rcases histories with _ | ⟨history, histories⟩
      · exact fun heads hmem => absurd hmem List.not_mem_nil
      · exact hhistories history List.mem_cons_self
    refine (causalLayer_ends hwords htable hfloat (hlayers layer List.mem_cons_self)
      (fun h => hlate fun hserved => h ⟨hserved.1 layer List.mem_cons_self, hserved.2⟩) hhidden
      hfirst).bind fun first hfirst => ?_
    refine (ih (fun layer hmem => hlayers layer (List.mem_cons_of_mem _ hmem))
      (fun h => hlate fun hserved => h ⟨fun layer hmem =>
        hserved.1 layer (List.mem_cons_of_mem _ hmem), hserved.2⟩)
      (fun history hmem => hhistories history (List.mem_of_mem_tail hmem)) hfirst.1).bind
      fun rest hrest => ?_
    exact hrest

/-- Logits, one for each token of the vocabulary. -/
theorem logits_ends (hwords : model.Words)
    (hnorm : model.weights.outputNorm.Plain [model.dims.embeddingLength])
    (hlate : ¬model.weights.outputProjection.Projects model.dims.embeddingLength
      model.dims.vocabSize → ∀ e, allowed e)
    (hhidden : hidden.Plain [1, model.dims.embeddingLength]) :
    (model.decoder.logits hidden).Ends allowed (·.Plain [1, model.dims.vocabSize]) := by
  have hemb := hwords.embedding
  have hvocab := hwords.vocab
  have hlast : ∀ normed : CpuTensor, normed.Plain [1, model.dims.embeddingLength] → (do
      let data ← linearRow model.weights.outputProjection normed.data model.projection
      CpuTensor.fromF32 "logits".toList [1, model.dims.vocabSize] data : EngineResult CpuTensor).Ends
        allowed (·.Plain [1, model.dims.vocabSize]) := by
    intro normed hnormed
    by_cases hprojects : model.weights.outputProjection.Projects model.dims.embeddingLength
      model.dims.vocabSize
    · refine (linearRow_width hnormed.row_length hprojects.length_eq
        (fun h => absurd hprojects h) _).bind fun data hdata => ?_
      exact (CpuTensor.fromF32_ends (by decide) fun h => absurd ⟨by omega, by omega⟩ h).mono
        fun out h => h.1
    · have hall := hlate hprojects
      refine (linearRow_ends rfl (fun _ => hall) _).bind fun data _ => ?_
      exact (CpuTensor.fromF32_ends (by decide) fun _ => hall).mono fun out h => h.1
  unfold Decoder.logits
  split
  · exact hlast hidden hhidden
  · exact (CpuTensor.rmsNorm_ends hhidden hnorm (by decide) (fun h => absurd ⟨rfl, by omega⟩ h)
      _ _).bind hlast

end Layer

-- ---------------------------------------------------------------------------
-- The token embedding
-- ---------------------------------------------------------------------------

section Embedding

variable {allowed : EngineError → Prop} {ids : List Nat} {name : Str} {vocab width : Nat}

omit [FloatOps] in
theorem gather_ends {fetch : Nat → EngineResult (List F32)} (hall : ∀ e, allowed e)
    (hids : ids.length < 2 ^ 64) (hfits : ids.length * width * 4 < 2 ^ 63)
    (hfetch : ∀ id ∈ ids, (fetch id).Ends allowed (·.length = width)) :
    (do
      withCapacity (ids.length * width) 4
      let rows ← ids.mapM fetch
      CpuTensor.fromF32 name [ids.length, width] rows.flatten).Ends allowed
        (·.Plain [ids.length, width]) := by
  rw [withCapacity_eq_ok.mpr hfits, Outcome.ok_bind]
  refine (Outcome.Ends.mapM hfetch).bind fun rows hrows => ?_
  exact (CpuTensor.fromF32_ends hids fun _ => hall).mono fun out h => h.1

omit [FloatOps] in
theorem tokenIdx_ends (hall : ∀ e, allowed e) (id : Nat) :
    (CpuTensor.tokenIdx id vocab).Ends allowed fun token => token < vocab := by
  unfold CpuTensor.tokenIdx
  split
  · assumption
  · exact hall _

omit [FloatOps] in
theorem okOr_ends {α : Type} {o : Option α} {post : α → Prop} (hall : ∀ e, allowed e)
    (e : EngineError) (h : ∀ a, o = some a → post a) :
    (Outcome.okOr e o).Ends allowed post := by
  rcases o with _ | a
  · exact hall e
  · exact h a rfl

omit [FloatOps] in
theorem okOr_trivial {α : Type} (hall : ∀ e, allowed e) (e : EngineError) (o : Option α) :
    (Outcome.okOr e o).Ends allowed fun _ => True := okOr_ends hall e fun _ _ => trivial

/-- A lookup in a table of blocks checks their count before it takes a row. -/
theorem embeddingLookupQ8_0_ends (hall : ∀ e, allowed e) (tensor : CpuTensor)
    (hids : ids.length < 2 ^ 64) (hfits : ids.length * width * 4 < 2 ^ 63)
    (blocks : List Q8_0Block) :
    (tensor.embeddingLookupQ8_0BlockBacked ids name vocab width blocks).Ends allowed
      (·.Plain [ids.length, width]) := by
  unfold CpuTensor.embeddingLookupQ8_0BlockBacked
  split
  · exact hall _
  split
  · exact hall _
  rename_i haligned
  refine (okOr_ends hall _ fun count hcount => checkedMul_eq_some.mp hcount).bind
    fun expectedBlocks hexpected => ?_
  split
  · exact hall _
  rename_i hcount
  rw [checkedMul_eq_some.mpr ⟨rfl, by omega⟩, Outcome.okOr_some, Outcome.ok_bind]
  refine gather_ends hall hids hfits fun id _ => ?_
  refine (tokenIdx_ends hall id).bind fun token htoken => ?_
  refine (okOr_trivial hall _ _).bind fun _ _ => ?_
  have hle := Rows.row_le (w := width / 32) htoken
  unfold Rows.row
  rw [Rows.slice_of_le (by omega)]
  show List.length (List.flatMap _ _) = _
  rw [Rows.length_flatMap_blocks Q8_0Block.length_dequantize, List.length_take, List.length_drop]
  omega

omit [FloatOps] in
/-- So does one in the wire bytes of another format. -/
theorem embeddingLookupKquantWire_ends (hall : ∀ e, allowed e)
    (hids : ids.length < 2 ^ 64) (hfits : ids.length * width * 4 < 2 ^ 63) (hwidth : width < 2 ^ 64)
    (wire : List UInt8) {blockBytes : Nat}
    {dequantBlock : List UInt8 → EngineResult (List F32)}
    (hdecodes : Decodes dequantBlock blockBytes 256) (hbytes : blockBytes ≤ 256) :
    (CpuTensor.embeddingLookupKquantWire ids name vocab width wire blockBytes dequantBlock).Ends allowed
      (·.Plain [ids.length, width]) := by
  unfold CpuTensor.embeddingLookupKquantWire
  split
  · exact hall _
  rename_i haligned
  have hrowBytes : width / 256 * blockBytes ≤ width / 256 * 256 := Nat.mul_le_mul_left _ hbytes
  have hmul : plainMul (width / 256) blockBytes = .ok (width / 256 * blockBytes) :=
    plainMul_eq_ok.mpr ⟨rfl, by omega⟩
  dsimp only
  rw [hmul, Outcome.ok_bind]
  refine (okOr_ends hall _ fun count hcount => checkedMul_eq_some.mp hcount).bind
    fun expected hexpected => ?_
  split
  · exact hall _
  rename_i hcount
  have hchunk : ∀ chunk : List UInt8, chunk.length = blockBytes →
      (dequantBlock chunk).Ends allowed (·.length = 256) := by
    intro chunk hlength
    obtain ⟨values, hdecoded, hvalues⟩ := hdecodes chunk hlength
    rw [hdecoded]
    exact hvalues
  rw [plainMul_eq_ok.mpr ⟨rfl, by omega⟩, Outcome.ok_bind]
  refine gather_ends hall hids hfits fun id _ => ?_
  refine (tokenIdx_ends hall id).bind fun token htoken => ?_
  have hle := Rows.row_le (w := width / 256 * blockBytes) htoken
  unfold Rows.row
  rw [Rows.slice_of_le (by omega), Outcome.orPanic_some, Outcome.ok_bind]
  refine Outcome.Ends.bind (Outcome.Ends.mapM fun b hb => ?_)
    fun blocks (hblocks : _ ∧ ∀ block ∈ blocks, block.length = 256) => ?_
  · have hblock := Rows.row_le (w := blockBytes) (List.mem_range.mp hb)
    rw [Rows.slice_of_le (by rw [List.length_take, List.length_drop]; omega)]
    rw [Outcome.orPanic_some, Outcome.ok_bind]
    refine hchunk _ ?_
    rw [List.length_take, List.length_drop, List.length_take, List.length_drop]
    omega
  · show List.length (List.flatten _) = _
    rw [Rows.length_flatten hblocks.2, hblocks.1, List.length_range]
    omega

omit [FloatOps] in
/-- One in plain values takes it from a buffer of as many rows as the vocabulary. -/
theorem embeddingLookupData_ends (hall : ∀ e, allowed e) {tensor : CpuTensor}
    (hids : ids.length < 2 ^ 64) (hfits : ids.length * width * 4 < 2 ^ 63)
    (hdata : tensor.data.length = vocab * width) :
    (tensor.embeddingLookupData ids name vocab width).Ends allowed
      (·.Plain [ids.length, width]) := by
  unfold CpuTensor.embeddingLookupData
  rw [checkedMul_eq_some.mpr ⟨rfl, by omega⟩, Outcome.okOr_some, Outcome.ok_bind]
  refine gather_ends hall hids hfits fun id _ => ?_
  refine (tokenIdx_ends hall id).bind fun token htoken => ?_
  refine (okOr_ends hall _ fun start hstart => checkedMul_eq_some.mp hstart).bind
    fun start hstart => ?_
  have hle := Rows.row_le (w := width) htoken
  split
  · refine Outcome.ends_orPanic (Rows.slice_of_le (by omega)) ?_
    rw [List.length_take, List.length_drop]
    omega
  · exact hall _

/-- A lookup in a table that holds what its shape says. -/
theorem embeddingLookup_ends (hall : ∀ e, allowed e) {tensor : CpuTensor}
    (hdims : tensor.dims = [vocab, width]) (hvalues : tensor.values.length = vocab * width)
    (hids : ids.length < 2 ^ 64) (hfits : ids.length * width * 4 < 2 ^ 63) (hwidth : width < 2 ^ 64) :
    (tensor.embeddingLookup ids name).Ends allowed (·.Plain [ids.length, width]) := by
  unfold CpuTensor.embeddingLookup
  rw [CpuTensor.requireRank_eq _ (by rw [hdims]; rfl), Outcome.ok_bind,
    CpuTensor.dim_eq (by rw [hdims]; rfl), Outcome.ok_bind,
    CpuTensor.dim_eq (by rw [hdims]; rfl), Outcome.ok_bind]
  rcases hblocks : tensor.q8_0Blocks with _ | blocks
  · rcases tensor.q4KWireBytes with _ | wire
    · rcases tensor.q5KWireBytes with _ | wire
      · rcases tensor.q6KWireBytes with _ | wire
        · refine embeddingLookupData_ends hall hids hfits ?_
          rw [← hvalues, CpuTensor.values, hblocks]
        · exact embeddingLookupKquantWire_ends hall hids hfits hwidth wire Q6KBlock.decodes (by decide)
      · exact embeddingLookupKquantWire_ends hall hids hfits hwidth wire Q5KBlock.decodes (by decide)
    · exact embeddingLookupKquantWire_ends hall hids hfits hwidth wire Q4KBlock.decodes (by decide)
  · exact embeddingLookupQ8_0_ends hall tensor hids hfits blocks

end Embedding

-- ---------------------------------------------------------------------------
-- One token
-- ---------------------------------------------------------------------------

section Step

variable {model : DenseModel} {allowed : EngineError → Prop}

/-- What a forward pass reads by rows holds what its shape says. -/
structure Sound (model : DenseModel) : Prop where
  words : model.Words
  embedding : model.weights.tokenEmbedding.values.length =
    model.dims.vocabSize * model.dims.embeddingLength
  outputNorm : model.weights.outputNorm.Plain [model.dims.embeddingLength]
  table : model.TableFull
  layers : ∀ layer ∈ model.weights.layers, layer.Sound model.dims

/-- Every check of a forward pass that the loader has settled passes. -/
structure Served (model : DenseModel) : Prop where
  embedding : ∀ token < model.dims.vocabSize, ∃ hidden, model.decoder.embed token = .ok hidden
  layers : ∀ layer ∈ model.weights.layers, layer.Served model.dims
  rotates : model.config.Rotates model.dims.headDim
  output : model.weights.outputProjection.Projects model.dims.embeddingLength model.dims.vocabSize

/-- A token of the vocabulary has a hidden state. -/
theorem embed_ends (hsound : model.Sound) {token : TokenId}
    (hlate : ¬(∃ hidden, model.decoder.embed token = .ok hidden) → ∀ e, allowed e) :
    (model.decoder.embed token).Ends allowed (·.Plain [1, model.dims.embeddingLength]) := by
  have hdims := (LlamaWeights.shaped_of_validate model.dims_eq model.shapes).1
  have hany : (model.decoder.embed token).Ends (fun _ => True)
      (·.Plain [1, model.dims.embeddingLength]) :=
    embeddingLookup_ends (fun _ => trivial) hdims hsound.embedding (by simp)
      (by simpa using hsound.words.hidden) hsound.words.embedding
  obtain ⟨hsafe, -, hpost⟩ := Outcome.ends_iff.mp hany
  refine Outcome.ends_iff.mpr ⟨hsafe, fun e he => hlate ?_ e, hpost⟩
  rintro ⟨hidden, hidden_eq⟩
  rw [he] at hidden_eq
  exact absurd hidden_eq (by simp)

/-- The answer of a forward pass. -/
theorem answer_ends (hsound : model.Sound)
    (hlate : ¬model.weights.outputProjection.Projects model.dims.embeddingLength
      model.dims.vocabSize → ∀ e, allowed e) {hidden : CpuTensor}
    (hhidden : hidden.Plain [1, model.dims.embeddingLength]) (computeLogits : Bool) :
    (model.decoder.answer hidden computeLogits).Ends allowed fun answer =>
      ∀ logits, answer = some logits → logits.Plain [1, model.dims.vocabSize] := by
  unfold Decoder.answer
  split
  · refine (logits_ends hsound.words hsound.outputNorm hlate hhidden).bind fun logits hlogits => ?_
    intro answer hanswer
    rw [← Option.some.inj hanswer]
    exact hlogits
  · exact fun answer hanswer => absurd hanswer (by simp)

/-- **One token, without faults.** On rows of every head, a token through the stack ends in
logits of the vocabulary, in the error of an attention, or in one that was settled when the
model was loaded. -/
theorem step_ends (hsound : model.Sound) (hfloat : allowed softmaxError) {token : TokenId}
    (hlate : ¬(token < model.dims.vocabSize ∧ model.Served) → ∀ e, allowed e)
    {histories : List (List HeadRows)}
    (hhistories : ∀ history ∈ histories, ∀ heads ∈ history, model.RowsWide heads)
    (computeLogits : Bool) :
    (model.decoder.step histories token computeLogits).Ends allowed fun out =>
      ∀ logits, out.1 = some logits → logits.Plain [1, model.dims.vocabSize] := by
  unfold Decoder.step
  refine (embed_ends hsound fun h => hlate fun hserved =>
    h (hserved.2.embedding token hserved.1)).bind fun hidden hhidden => ?_
  refine Outcome.Ends.bind (nextStack_ends hsound.words hsound.table hfloat hsound.layers
    (fun h => hlate fun hserved => h ⟨hserved.2.layers, hserved.2.rotates⟩) hhistories hhidden)
    fun out hout => ?_
  refine (answer_ends hsound (fun h => hlate fun hserved => h hserved.2.output) hout
    computeLogits).bind fun answer hanswer => ?_
  exact hanswer

end Step

end DenseModel

end Layers

end CamelidEnterprise

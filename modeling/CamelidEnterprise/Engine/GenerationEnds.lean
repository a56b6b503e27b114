import CamelidEnterprise.Engine.ForwardSafe
import CamelidEnterprise.Engine.RuntimeRun

/-!
# Camelid Enterprise — how a generation ends

The load of a model leaves checks to its first request: the RoPE configuration, the
alignment of the projections, the plan of the KV cache. `Servable` states what they ask
of a header. For a file that is accepted and servable, both calls of
`crates/engine-core/src/runtime.rs` return, for every prompt of the vocabulary and every
budget within the context, or end in an error of a computed value (`ValueError`): an
attention without a finite sum, a logit that is not finite, or a generated token that
has no text.

`ForwardPass.Serves` is what the decode loops keep, over any decoder; the dense decoder
keeps that its cache represents rows.

Key result: `servable_generation_ends`.
-/

namespace CamelidEnterprise

open Foundation Gguf Server

-- ---------------------------------------------------------------------------
-- The loops
-- ---------------------------------------------------------------------------

namespace ForwardPass

variable {δ Λ κ : Type}

/-- A decoder that is held takes every token of a kind at a free position, and picks one of the
kind from the logits it computed; what it cannot do, it refuses with an allowed error. -/
structure Serves (pass : ForwardPass δ Λ) (held : δ → Prop) (kind : TokenId → Prop)
    (row : Λ → Prop) (allowed : EngineError → Prop) : Prop where
  new : pass.new.Ends allowed held
  forward : ∀ decoder token computeLogits, held decoder → kind token →
    pass.position decoder < pass.contextLength →
    (pass.forwardToken token computeLogits).Ends decoder allowed fun answer next =>
      held next ∧ ∀ logits, answer = some logits → row logits
  argmax : ∀ logits, row logits → (pass.argmax logits).Ends allowed kind

variable {pass : ForwardPass δ Λ} {held : δ → Prop} {kind : TokenId → Prop} {row : Λ → Prop}
  {allowed : EngineError → Prop}

/-- A pass uses up one position. -/
theorem Serves.forward_position (h : pass.Serves held kind row allowed) {decoder : δ}
    {token : TokenId} (computeLogits : Bool) (hheld : held decoder) (hkind : kind token)
    (hfree : pass.position decoder < pass.contextLength) :
    (pass.forwardToken token computeLogits).Ends decoder allowed fun answer next =>
      held next ∧ pass.position next = pass.position decoder + 1 ∧
        ∀ logits, answer = some logits → row logits := by
  have hends := h.forward decoder token computeLogits hheld hkind hfree
  unfold Effect.Ends at hends ⊢
  rcases hpass : pass.forwardToken token computeLogits decoder with ⟨answer | e | k, next⟩
  · rw [hpass] at hends
    exact ⟨hends.1, forwardToken_position hpass, hends.2⟩
  · rw [hpass] at hends
    exact hends
  · rw [hpass] at hends
    exact hends

theorem Serves.prefill_ends (h : pass.Serves held kind row allowed) {tokens : List TokenId}
    {decoder : δ} (hheld : held decoder) (hkind : ∀ token ∈ tokens, kind token)
    (hfits : pass.position decoder + tokens.length ≤ pass.contextLength) :
    (pass.prefill tokens).Ends decoder allowed fun _ next =>
      held next ∧ pass.position next = pass.position decoder + tokens.length := by
  induction tokens generalizing decoder with
  | nil => exact Effect.ends_pure ⟨hheld, rfl⟩
  | cons token tokens ih =>
    rw [List.length_cons] at hfits
    rw [prefill]
    refine (h.forward_position false hheld (hkind token List.mem_cons_self) (by omega)).bind ?_
    rintro answer next ⟨hnext, hposition, -⟩
    refine (ih hnext (fun t ht => hkind t (List.mem_cons_of_mem _ ht)) (by omega)).mono ?_
    rintro _ last ⟨hlast, hend⟩
    refine ⟨hlast, ?_⟩
    rw [List.length_cons]
    omega

theorem Serves.forwardLogits_ends (h : pass.Serves held kind row allowed) {decoder : δ}
    {token : TokenId} (hheld : held decoder) (hkind : kind token)
    (hfree : pass.position decoder < pass.contextLength) :
    (pass.forwardLogits token).Ends decoder allowed fun logits next =>
      held next ∧ pass.position next = pass.position decoder + 1 ∧ row logits := by
  have hends := h.forward_position true hheld hkind hfree
  unfold Effect.Ends at hends ⊢
  rw [forwardLogits, Effect.run_bind]
  rcases hpass : pass.forwardToken token true decoder with ⟨answer | e | k, next⟩
  · rw [hpass] at hends
    have hcompute : pass.compute token true decoder = (.ok answer, next) := by
      unfold forwardToken at hpass
      rwa [if_pos hfree] at hpass
    -- logits were asked for, so they are there
    obtain ⟨logits, rfl⟩ := Option.isSome_iff_exists.mp
      (pass.compute_logits decoder token answer next hcompute)
    exact ⟨hends.1, hends.2.1, hends.2.2 logits rfl⟩
  · rw [hpass] at hends
    exact hends
  · rw [hpass] at hends
    exact hends

section Loop

variable {shouldStop : TokenId → Bool} {maxNew : Nat} (kept : κ → Prop)
  {onToken : TokenId → Effect κ EngineError DecodeControl}

/-- By induction on the iterations: the position and the fuel left never exceed the context
together, so each pass finds a free position. -/
theorem Serves.decodeLoop_ends (h : pass.Serves held kind row allowed)
    (hcallback : ∀ token captured, kind token → kept captured →
      (onToken token).Ends captured allowed fun _ captured' => kept captured')
    {fuel : Nat} {logits : Λ} {generated : List TokenId} {decoder : δ} {captured : κ}
    (hpos : 0 < fuel) (hfuel : generated.length + fuel = maxNew)
    (hfits : pass.position decoder + fuel ≤ pass.contextLength) (hheld : held decoder)
    (hrow : row logits) (hkept : kept captured) (hgenerated : ∀ token ∈ generated, kind token) :
    (pass.decodeLoop maxNew shouldStop onToken fuel logits generated).Ends (decoder, captured)
      allowed fun output _ => ∀ token ∈ output.tokenIds, kind token := by
  induction fuel generalizing logits generated decoder captured with
  | zero => exact absurd hpos (Nat.lt_irrefl 0)
  | succ fuel ih =>
    rw [decodeLoop]
    have hpick : (Effect.lift (pass.argmax logits)).Ends (decoder, captured) allowed
        fun token state => kind token ∧ state = (decoder, captured) :=
      Effect.ends_lift ((h.argmax logits hrow).mono fun token hkind => ⟨hkind, rfl⟩)
    refine hpick.bind ?_
    rintro next _ ⟨hkind, rfl⟩
    have hextended : ∀ token ∈ generated ++ [next], kind token := by
      intro token htoken
      rcases List.mem_append.mp htoken with htoken | htoken
      · exact hgenerated token htoken
      · rwa [List.mem_singleton.mp htoken]
    refine (hcallback next captured hkind hkept).second.bind ?_
    rintro control ⟨decoder', captured'⟩ ⟨hkept', hsame⟩
    obtain rfl : decoder' = decoder := hsame
    split
    · exact Effect.ends_pure hextended
    split
    · exact Effect.ends_pure hextended
    split
    · exact Effect.ends_pure hextended
    rename_i hbudget
    rw [List.length_append, List.length_singleton] at hbudget
    refine (h.forwardLogits_ends hheld hkind (by omega)).first.bind ?_
    rintro logits' ⟨decoder', captured''⟩ ⟨⟨hnext, hposition, hrow'⟩, hsame⟩
    obtain rfl : captured'' = captured' := hsame
    dsimp only at hnext hposition
    exact ih (by omega) (by rw [List.length_append, List.length_singleton]; omega) (by omega)
      hnext hrow' hkept' hextended

theorem Serves.generateUntilWithCallback_ends (h : pass.Serves held kind row allowed)
    (hcallback : ∀ token captured, kind token → kept captured →
      (onToken token).Ends captured allowed fun _ captured' => kept captured')
    {prompt : List TokenId} {decoder : δ} {captured : κ} (hne : prompt ≠ [])
    (hkind : ∀ token ∈ prompt, kind token) (hstart : pass.position decoder = 0)
    (hfits : prompt.length + maxNew ≤ pass.contextLength) (hheld : held decoder)
    (hkept : kept captured) :
    (pass.generateUntilWithCallback prompt maxNew shouldStop onToken).Ends (decoder, captured)
      allowed fun output _ => ∀ token ∈ output.tokenIds, kind token := by
  obtain ⟨last, hlast⟩ := Option.ne_none_iff_exists'.mp (mt List.getLast?_eq_none_iff.mp hne)
  have hpos := List.length_pos_iff.mpr hne
  unfold generateUntilWithCallback
  rw [hlast]
  dsimp only
  split
  · exact Effect.ends_pure fun token htoken => absurd htoken List.not_mem_nil
  · refine (h.prefill_ends hheld (fun token htoken => hkind token (List.mem_of_mem_dropLast htoken))
      (by rw [List.length_dropLast]; omega)).first.bind ?_
    rintro _ ⟨primed, captured'⟩ ⟨⟨hprimed, hposition⟩, hsame⟩
    obtain rfl : captured' = captured := hsame
    dsimp only at hprimed hposition
    rw [List.length_dropLast] at hposition
    refine (h.forwardLogits_ends hprimed (hkind last (List.mem_of_getLast? hlast))
      (by omega)).first.bind ?_
    rintro logits ⟨ready, captured''⟩ ⟨⟨hready, hposition', hrow⟩, hsame⟩
    obtain rfl : captured'' = captured' := hsame
    dsimp only at hready hposition'
    exact h.decodeLoop_ends kept hcallback (by omega) (by rw [List.length_nil, Nat.zero_add])
      (by omega) hready hrow hkept fun token htoken => absurd htoken List.not_mem_nil

end Loop

end ForwardPass

-- ---------------------------------------------------------------------------
-- The two calls
-- ---------------------------------------------------------------------------

/-- The errors a computed value can cause in a request: an attention without a finite sum, a
logit that is not finite, and a token that has no text. -/
inductive ValueError : EngineError → Prop
  | attention : ValueError softmaxError
  | logit (idx : Nat) :
    ValueError (.ShapeMismatch s!"greedy sampling rejects non-finite logit at index {idx}")
  | text {e : EngineError} (h : Tokenizer.DecodeError e) : ValueError e

namespace LoadedModel

variable {δ Λ : Type} {model : LoadedModel δ Λ} {held : δ → Prop} {kind : TokenId → Prop}
  {row : Λ → Prop} {prompt : List TokenId} {maxNew : Nat}

theorem completedGeneration_ends (prompt tokens : List TokenId) :
    (model.completedGeneration prompt tokens).Ends ValueError fun _ => True := by
  have hsafe := Tokenizer.decode_safe model.tokenizer tokens true
  have htext : (model.tokenizer.decode tokens true).Ends ValueError fun _ => True :=
    Outcome.ends_iff.mpr ⟨hsafe.1, fun e he => .text (hsafe.2 e he), fun _ _ => trivial⟩
  exact htext.bind fun _ _ => trivial

theorem onToken_ends (consumer : List TokenDelta → GenerationControl) (token : TokenId)
    {captured : IncrementalDecoder × List TokenDelta}
    (hsync : captured.1.Synced model.tokenizer) :
    (model.onToken consumer token).Ends captured ValueError fun _ captured' =>
      captured'.1.Synced model.tokenizer := by
  unfold Effect.Ends
  rw [← Prod.eta captured, onToken_apply]
  rcases IncrementalDecoder.push_cases hsync token with ⟨delta, hpush⟩ | ⟨e, he, hpush⟩
  · rw [hpush]
    exact IncrementalDecoder.push_synced hpush
  · rw [hpush]
    exact .text he

theorem validateGenerationRequest_ok {contextLength maxNewTokens : Nat}
    {promptTokens : List TokenId} (hne : promptTokens ≠ []) (hcontext : contextLength < 2 ^ 64)
    (hfits : promptTokens.length + maxNewTokens ≤ contextLength) :
    validateGenerationRequest contextLength promptTokens maxNewTokens = .ok () := by
  unfold validateGenerationRequest
  rw [if_neg hne, if_neg (by omega), if_neg (by omega)]

/-- Both calls of a request that fits, on a decoder that serves it. -/
theorem generation_ends (hserves : model.pass.Serves held kind row ValueError)
    (hcontext : model.pass.contextLength < 2 ^ 64) (hne : prompt ≠ [])
    (hkind : ∀ token ∈ prompt, kind token)
    (hfits : prompt.length + maxNew ≤ model.pass.contextLength) :
    ((model.generate prompt maxNew).Ends ValueError fun _ => True) ∧
      ∀ consumer, (model.generateIncremental prompt maxNew consumer).result.Ends ValueError
        fun _ => True := by
  have hvalid := validateGenerationRequest_ok hne hcontext hfits
  constructor
  · -- without a callback
    unfold generate
    rw [hvalid, Outcome.ok_bind]
    rcases hnew : model.pass.new with decoder | e | k
    · have hheld := hserves.new
      rw [hnew] at hheld
      rw [Outcome.ok_bind]
      have hloop : (model.pass.generateUntil prompt maxNew model.isEog).Ends (decoder, ())
          ValueError fun _ _ => True := by
        refine (hserves.generateUntilWithCallback_ends (fun _ => True) ?_ hne hkind
          (model.pass.new_position decoder hnew) hfits hheld trivial).bind fun _ _ _ =>
            Effect.ends_pure trivial
        exact fun _ _ _ _ => Effect.ends_pure trivial
      exact Outcome.Ends.bind hloop fun tokens _ => completedGeneration_ends prompt tokens
    · have hends := hserves.new
      rwa [hnew] at hends
    · have hends := hserves.new
      rwa [hnew] at hends
  · -- with one: its decoder stays in step with the tokens, so its pushes end too
    intro consumer
    rcases hnew : model.pass.new with decoder | e | k
    · have hheld := hserves.new
      rw [hnew] at hheld
      rw [generateIncremental_started hvalid hnew]
      have hloop : (model.pass.generateUntilWithCallback prompt maxNew model.isEog
          (model.onToken consumer)).Ends (decoder, fresh) ValueError
          fun output _ => ∀ token ∈ output.tokenIds, kind token :=
        hserves.generateUntilWithCallback_ends (fun captured => captured.1.Synced model.tokenizer)
          (fun token captured _ hsync => onToken_ends consumer token hsync) hne hkind
          (model.pass.new_position decoder hnew) hfits hheld fresh_synced
      refine Outcome.Ends.bind hloop fun output _ => ?_
      split
      · trivial
      · exact (completedGeneration_ends prompt output.tokenIds).bind fun _ _ => trivial
    · have hends := hserves.new
      rw [hnew] at hends
      unfold generateIncremental
      rw [hvalid, Outcome.ok_bind, hnew]
      exact hends
    · have hends := hserves.new
      rw [hnew] at hends
      exact hends.elim

end LoadedModel

-- ---------------------------------------------------------------------------
-- The dense decoder
-- ---------------------------------------------------------------------------

section Dense

variable [FloatOps]

omit [FloatOps] in
/-- The fold keeps an index of the row, or the one it started with. -/
theorem argmaxIdx_lt {data : List F32} (hne : data ≠ []) : argmaxIdx data < data.length := by
  have hfold : ∀ (scores : List (F32 × Nat)) (best : F32 × Nat), best.2 < data.length →
      (∀ scored ∈ scores, scored.2 < data.length) →
      (scores.foldl (fun best scored => if best.1.lt scored.1 then scored else best) best).2 <
        data.length := by
    intro scores
    induction scores with
    | nil => exact fun best hbest _ => hbest
    | cons scored scores ih =>
      intro best hbest hscores
      refine ih _ ?_ fun other hother => hscores other (List.mem_cons_of_mem _ hother)
      dsimp only
      split
      · exact hscores scored List.mem_cons_self
      · exact hbest
  refine hfold _ _ (List.length_pos_iff.mpr hne) ?_
  rintro ⟨value, idx⟩ hmem
  exact List.snd_lt_of_mem_zipIdx hmem

omit [FloatOps] in
theorem argmax_ends {logits : CpuTensor} {vocab : Nat} (hlogits : logits.Plain [1, vocab])
    (hpos : 0 < vocab) (hword : vocab < 2 ^ 32) :
    (argmax logits).Ends ValueError (· < vocab) := by
  have hlength := hlogits.row_length
  have hne : logits.data ≠ [] := by
    intro hempty
    rw [hempty, List.length_nil] at hlength
    omega
  have hlt := argmaxIdx_lt hne
  rw [hlength] at hlt
  unfold argmax
  rw [if_neg (by rw [hlogits.dims_eq]; simp), if_neg hne]
  split
  · exact .logit _
  · dsimp only
    rw [if_pos (by omega)]
    exact hlt

namespace DenseModel

variable {model : DenseModel} {kv : LlamaKvCache}

theorem room_ends {allowed : EngineError → Prop} (hnarrow : model.config.Narrow)
    (hplan : kv.plan = model.plan) (hfits : model.CacheFits)
    (hfree : kv.position < model.config.contextLength) :
    (model.room kv).Ends allowed fun _ => True := by
  have hgrowth := growthFits_of_cacheFits hplan hfits
  have hbytes := growth_le_of_cacheFits hplan hfits
  unfold isizeMax at hbytes
  have hsafe := (room_noFault_iff hnarrow hplan).mpr hgrowth
  refine Outcome.ends_iff.mpr ⟨hsafe, ?_, fun _ _ => trivial⟩
  -- neither the bound of the context nor the count of elements is in the way
  intro e he
  have hmax : kv.plan.maxSequenceLength = model.config.contextLength := by rw [hplan]; rfl
  unfold room at he
  rw [if_pos hfree] at he
  unfold LlamaKvCache.reserve at he
  rw [if_neg (by omega)] at he
  split at he
  · exact absurd he (by simp)
  rcases hposition : kv.plan.positionStride with stride | e' | k
  · have hword : stride = kv.stride := by
      obtain ⟨rows, hrows, hposition⟩ := Outcome.bind_eq_ok.mp hposition
      rw [(plainMul_eq_ok.mp hposition).1, (plainMul_eq_ok.mp hrows).1]
      rfl
    rw [hposition, Outcome.ok_bind, show checkedMul (kv.growthTarget (kv.position + 1)) stride =
      some (kv.growthTarget (kv.position + 1) * stride) from
        checkedMul_eq_some.mpr ⟨rfl, by rw [hword]; omega⟩, Outcome.okOr_some,
      Outcome.ok_bind] at he
    split at he
    · exact absurd he (by simp)
    · exact absurd he (by simp)
  · exfalso
    unfold LlamaKvCachePlan.positionStride LlamaKvCachePlan.positionStrideIn Build.mul plainMul
      at hposition
    dsimp only at hposition
    split at hposition
    · rw [Outcome.ok_bind] at hposition
      split at hposition
      · exact absurd hposition (by simp)
      · exact absurd hposition (by simp)
    · exact absurd hposition (by simp)
  · rw [hposition] at he
    exact absurd he (by simp)

theorem newCache_ok (hlayers : 0 < model.dims.blockCount) (hwidth : 0 < model.dims.headDim) :
    ∃ kv, model.newCache = .ok kv := by
  have hkvHeads := model.kvHeads_pos
  unfold newCache LlamaKvCachePlan.fromConfig LlamaKvCache.new
  rw [model.dims_eq, Outcome.ok_bind, Outcome.ok_bind, Outcome.ok_bind, if_neg]
  · exact ⟨_, rfl⟩
  · dsimp only
    omega

theorem vocab_pos (model : DenseModel) : 0 < model.dims.vocabSize := by
  obtain ⟨hdense, vocab, hvocab, hdims⟩ := DenseLlamaDims.fromConfig_eq_ok.mp model.dims_eq
  obtain ⟨vocab', hvocab', hpos⟩ := hdense.vocab_pos
  obtain rfl := Option.some.inj (hvocab.symm.trans hvocab')
  rw [hdims]
  exact hpos

/-- The decode loops are served on caches that represent rows. -/
theorem serves (hsound : model.Sound) (hserved : model.Served)
    (hnarrow : model.config.Narrow) (hfits : model.CacheFits)
    (hlayers : 0 < model.dims.blockCount) (hwidth : 0 < model.dims.headDim) :
    model.forwardPass.Serves (fun kv => ∃ histories, model.Represents kv histories)
      (· < model.dims.vocabSize) (·.Plain [1, model.dims.vocabSize]) ValueError := by
  obtain ⟨-, vocab, hvocab, hdims⟩ := DenseLlamaDims.fromConfig_eq_ok.mp model.dims_eq
  have hword : model.dims.vocabSize < 2 ^ 32 := by
    rw [hdims]
    exact hnarrow.vocab vocab hvocab
  refine ⟨?_, ?_, fun logits hlogits => argmax_ends hlogits model.vocab_pos hword⟩
  · obtain ⟨kv, hnew⟩ := newCache_ok hlayers hwidth
    exact .of_eq_ok hnew ⟨_, (newCache_fresh hnew).represents⟩
  · intro kv token computeLogits hheld htoken hfree
    obtain ⟨histories, hrep⟩ := hheld
    have hends := forwardToken_ends hrep hsound ValueError.attention
      (fun h => absurd ⟨htoken, hserved⟩ h) (room_ends hnarrow hrep.plan_eq hfits hfree)
      computeLogits
    obtain ⟨kv', hrun, hdone, -⟩ := forwardToken_run hrep token computeLogits
    unfold Effect.Ends
    rw [hrun] at hends ⊢
    rcases hturn : model.turn kv histories token computeLogits with out | e | k
    · rw [hturn] at hends
      exact ⟨⟨_, (hdone out hturn).1⟩, hends⟩
    · rw [hturn] at hends
      exact hends
    · rw [hturn] at hends
      exact hends

end DenseModel

-- ---------------------------------------------------------------------------
-- Headers
-- ---------------------------------------------------------------------------

/-- A projection whose rows come in whole blocks, that are decoded in full. -/
def Gguf.TensorDescriptor.ProjectsRows (desc : TensorDescriptor) (inputWidth : Nat) : Prop :=
  desc.InFull ∧ (desc.tensorType = .Q8_0 → 32 ∣ inputWidth)

/-- The projections of a layer, and the widths of the rows they take. -/
def LlamaLayerTensors.projections (layer : LlamaLayerTensors) (dims : DenseLlamaDims) :
    List (TensorDescriptor × Nat) :=
  [(layer.attentionQ, dims.embeddingLength), (layer.attentionK, dims.embeddingLength),
    (layer.attentionV, dims.embeddingLength), (layer.attentionOutput, dims.qWidth),
    (layer.ffn.gate, dims.embeddingLength), (layer.ffn.up, dims.embeddingLength),
    (layer.ffn.down, dims.feedForwardLength)]

omit [FloatOps] in
theorem LlamaLayerTensors.mem_descriptors_of_projections {layer : LlamaLayerTensors}
    {dims : DenseLlamaDims} {projection : TensorDescriptor × Nat}
    (h : projection ∈ layer.projections dims) : projection.1 ∈ layer.descriptors := by
  simp only [projections, List.mem_cons, List.not_mem_nil, or_false] at h
  unfold descriptors
  simp only [List.mem_append, List.mem_cons, List.not_mem_nil, or_false]
  rcases h with rfl | rfl | rfl | rfl | rfl | rfl | rfl
  all_goals tauto

/-- What the first request asks of a header and the load does not. -/
structure Servable (config : LlamaModelConfig) (dims : DenseLlamaDims)
    (binding : LlamaTensorBinding) : Prop where
  layers : 0 < dims.blockCount
  headDim : 0 < dims.headDim
  embedding : 0 < dims.embeddingLength
  feedForward : 0 < dims.feedForwardLength
  rotates : config.Rotates dims.headDim
  full : ∀ desc ∈ binding.readByRows, desc.InFull
  table : RowsFit binding.tokenEmbedding.tensorType dims.embeddingLength
  output : binding.output.ProjectsRows dims.embeddingLength
  projections : ∀ layer ∈ binding.layers, ∀ projection ∈ layer.projections dims,
    projection.1.ProjectsRows projection.2
  cache : 4 * (config.contextLength *
    (dims.blockCount * dims.attentionHeadCountKv * dims.headDim)) ≤ isizeMax

variable {store : TensorStore}

theorem TensorStore.loadLinear_projects (hwell : store.WellSized) {desc : TensorDescriptor}
    (hdesc : store.descriptor desc.name = .ok desc) {name : Str} {tensor : CpuTensor}
    (h : store.loadQ8_0BlockBackedLinearAs desc.name name = .ok tensor)
    {inputWidth outputWidth : Nat} (hrows : desc.ProjectsRows inputWidth)
    (hshape : Oriented tensor inputWidth outputWidth) (hin : 0 < inputWidth)
    (hout : 0 < outputWidth) : tensor.Projects inputWidth outputWidth := by
  have hcount := loadLinear_values hwell hdesc hrows.1 h hshape
  refine ⟨hcount, CpuTensor.not_refuses hin hout ?_ hcount⟩
  intro hblocks
  obtain ⟨blocks, hblocks⟩ := Option.ne_none_iff_exists'.mp hblocks
  have hrank : desc.dims.length = 2 := by
    rw [← loadLinear_dims hdesc h]
    rcases hshape with hshape | hshape
    · rw [hshape]
      rfl
    · rw [hshape]
      rfl
  obtain ⟨-, hsized⟩ := loadLinear_sized hwell hdesc hrank h
  rw [hblocks] at hsized
  exact hrows.2 hsized.1

/-- The layers of a servable header take the rows they are handed. -/
theorem LlamaLayerWeights.load_served (hwell : store.WellSized) {layer : LlamaLayerTensors}
    (hfound : ∀ desc ∈ layer.descriptors, store.descriptor desc.name = .ok desc)
    {weights : LlamaLayerWeights} (h : LlamaLayerWeights.load store layer = .ok weights)
    {dims : DenseLlamaDims} (hshaped : weights.Shaped dims)
    (hrows : ∀ projection ∈ layer.projections dims, projection.1.ProjectsRows projection.2)
    (hembedding : 0 < dims.embeddingLength) (hfeed : 0 < dims.feedForwardLength)
    (hq : 0 < dims.qWidth) (hkv : 0 < dims.kvWidth) : weights.Served dims := by
  have hsteps := load_steps h
  have hprojects : ∀ {desc : TensorDescriptor} {tensor : CpuTensor} {m n : Nat},
      (desc, m) ∈ layer.projections dims → store.loadQ8_0BlockBackedLinear desc.name = .ok tensor →
      Oriented tensor m n → 0 < m → 0 < n → tensor.Projects m n := by
    intro desc tensor m n hmem hload hshape hm hn
    exact TensorStore.loadLinear_projects hwell
      (hfound desc (LlamaLayerTensors.mem_descriptors_of_projections hmem)) hload (hrows _ hmem)
      hshape hm hn
  exact {
    attentionQ := hprojects (by simp [LlamaLayerTensors.projections]) hsteps.attentionQ
      hshaped.attentionQ hembedding hq
    attentionK := hprojects (by simp [LlamaLayerTensors.projections]) hsteps.attentionK
      hshaped.attentionK hembedding hkv
    attentionV := hprojects (by simp [LlamaLayerTensors.projections]) hsteps.attentionV
      hshaped.attentionV hembedding hkv
    attentionOutput := hprojects (by simp [LlamaLayerTensors.projections]) hsteps.attentionOutput
      hshaped.attentionOutput hq hembedding
    ffnGate := hprojects (by simp [LlamaLayerTensors.projections]) hsteps.ffnGate
      hshaped.ffnGate hembedding hfeed
    ffnUp := hprojects (by simp [LlamaLayerTensors.projections]) hsteps.ffnUp
      hshaped.ffnUp hembedding hfeed
    ffnDown := hprojects (by simp [LlamaLayerTensors.projections]) hsteps.ffnDown
      hshaped.ffnDown hfeed hembedding }

/-- A model loaded from a servable header passes every check that is left. -/
theorem DenseModel.served_of_load {bytes : List UInt8} {declaredLen : UInt64} {gguf : GgufFile}
    (hparse : readMetadataWithLen bytes declaredLen = .ok gguf) {model : DenseModel}
    {binding : LlamaTensorBinding}
    (hbind : LlamaTensorBinding.bind gguf model.config = .ok binding) {path : String}
    {file : List UInt8}
    (hload : LlamaWeights.load (TensorStore.ofHeader path file gguf) binding = .ok model.weights)
    (hservable : Servable model.config model.dims binding) : model.Served := by
  have hwell := TensorStore.ofHeader_wellSized hparse path file
  have hfound : ∀ desc ∈ binding.descriptors,
      (TensorStore.ofHeader path file gguf).descriptor desc.name = .ok desc := fun desc hdesc =>
    LlamaTensorBinding.found_of_bind hparse hbind path file hdesc
  obtain ⟨hembeddingDims, -, houtputShape, -, -, hshaped⟩ :=
    LlamaWeights.shaped_of_validate model.dims_eq model.shapes
  obtain ⟨-, -, hbound, htied, -, -, -, hvalidated⟩ := LlamaTensorBinding.bind_steps hbind
  obtain ⟨hshape, -⟩ := LlamaTensorBinding.shaped_of_validate model.dims_eq hvalidated
  obtain ⟨stored, output, hstored, htable, -, houtputLoad, hsome, -, hlayers⟩ :=
    LlamaWeights.load_steps hload
  have hdesc := hfound binding.tokenEmbedding (by simp [LlamaTensorBinding.descriptors])
  have hheads : 0 < model.dims.qWidth := by
    rw [model.qWidth_eq]
    exact Nat.mul_pos model.heads_pos hservable.headDim
  have hkvHeads : 0 < model.dims.kvWidth := by
    rw [model.kvWidth_eq]
    exact Nat.mul_pos model.kvHeads_pos hservable.headDim
  refine ⟨?_, ?_, hservable.rotates, ?_⟩
  · -- the table is stored as `[vocab, emb]`, whichever way round it was declared
    have htable := normalizeTokenEmbeddingShape_eq_ok
      (TensorStore.loadLinear_oriented hdesc hstored hshape) htable
    have hmax : max model.dims.vocabSize model.dims.embeddingLength = model.dims.vocabSize := by
      have hdims := hembeddingDims
      rw [htable] at hdims
      exact (List.cons.inj hdims).1
    have hle : model.dims.embeddingLength ≤ model.dims.vocabSize := by omega
    rw [Nat.max_eq_left hle, Nat.min_eq_right hle] at htable
    have hprod : binding.tokenEmbedding.dims.prod =
        model.dims.vocabSize * model.dims.embeddingLength := by
      rcases hshape with h | h
      · simp [h, Nat.mul_comm]
      · simp [h]
    have hrank : binding.tokenEmbedding.dims.length = 2 := by
      rcases hshape with h | h
      · rw [h]
        rfl
      · rw [h]
        rfl
    have hcells : model.dims.vocabSize * model.dims.embeddingLength < 2 ^ 64 := by
      rcases hshape with h | h
      · rw [Nat.mul_comm]
        exact TensorStore.loadLinear_bound hdesc h hstored
      · exact TensorStore.loadLinear_bound hdesc h hstored
    have hwidth : model.dims.embeddingLength < 2 ^ 64 :=
      Nat.lt_of_le_of_lt (Nat.le_mul_of_pos_left _ model.vocab_pos) hcells
    have hhands := table_handsOut hwell hdesc hrank hprod hwidth hcells hstored hservable.table
    intro token htoken
    have hlookup := (hhands [token] "hidden".toList (by simp) _).mpr
      ⟨by simpa using htoken, by simpa using row_reserved hle hcells, rfl⟩
    rw [← htable] at hlookup
    exact ⟨_, hlookup⟩
  · intro layer hlayer
    obtain ⟨idx, hidx⟩ := List.mem_iff_getElem?.mp hlayer
    obtain ⟨bound, hbound, hlayerLoad⟩ := Outcome.getElem?_of_mapM hlayers hidx
    have hmem := List.mem_of_getElem? hbound
    refine LlamaLayerWeights.load_served hwell (fun desc hdesc => ?_) hlayerLoad
      (hshaped layer hlayer) (hservable.projections bound hmem) hservable.embedding
      hservable.feedForward hheads hkvHeads
    exact hfound desc (List.mem_append_right _ (List.mem_flatMap.mpr ⟨bound, hmem, hdesc⟩))
  · -- a tied output is the embedding once more, under the name of the output
    have hlinear : ∃ name, (TensorStore.ofHeader path file gguf).loadQ8_0BlockBackedLinearAs
        binding.output.name name = .ok output := by
      unfold loadOutput at houtputLoad
      split at houtputLoad
      · rename_i hflag
        rw [htied] at hflag
        rw [hbound, Option.isNone_iff_eq_none.mp hflag]
        exact ⟨_, houtputLoad⟩
      · exact ⟨_, houtputLoad⟩
    obtain ⟨name, hlinear⟩ := hlinear
    have houtput : model.weights.outputProjection = output := by
      unfold LlamaWeights.outputProjection
      rw [hsome]
      rfl
    rw [houtput] at houtputShape ⊢
    exact TensorStore.loadLinear_projects hwell
      (hfound binding.output (by simp [LlamaTensorBinding.descriptors])) hlinear hservable.output
      houtputShape hservable.embedding model.vocab_pos

/-- What a servable load is good for. -/
theorem LoadedDense.ready {path : String} {file : List UInt8} {projection : Q8Projection}
    {loaded : LoadedDense} (hload : LoadedDense.load path file projection = .ok loaded)
    {gguf : GgufFile} (hparse : readMetadataWithLen file (.ofNat file.length) = .ok gguf)
    {binding : LlamaTensorBinding}
    (hbind : LlamaTensorBinding.bind gguf loaded.dense.config = .ok binding)
    (hservable : Servable loaded.dense.config loaded.dense.dims binding) :
    loaded.dense.Sound ∧ loaded.dense.Served ∧ loaded.dense.config.Narrow ∧
      loaded.tokenizer.tokens.length = loaded.dense.dims.vocabSize := by
  obtain ⟨gguf', binding', hparse', hconfig, hbind', hweights, hloaded⟩ :=
    LoadedDense.load_steps hload
  obtain rfl := Outcome.ok.inj (hparse.symm.trans hparse')
  obtain rfl := Outcome.ok.inj (hbind.symm.trans hbind')
  obtain ⟨-, -, -, hvocab⟩ := LoadedDense.fromComponents_eq_ok hloaded
  exact ⟨DenseModel.sound_of_load hparse hconfig hbind hweights hservable.full,
    DenseModel.served_of_load hparse hbind hweights hservable,
    LlamaModelConfig.narrow_of_fromGguf hconfig, hvocab⟩

/-- **A servable model serves.** For a file that the load accepts and whose header is servable,
both calls of a request whose prompt is of the vocabulary and whose budget is within the context
return, or end in an error of a computed value; they never panic. -/
theorem servable_generation_ends {path : String} {file : List UInt8} {projection : Q8Projection}
    {loaded : LoadedDense} (hload : LoadedDense.load path file projection = .ok loaded)
    {gguf : GgufFile} (hparse : readMetadataWithLen file (.ofNat file.length) = .ok gguf)
    {binding : LlamaTensorBinding}
    (hbind : LlamaTensorBinding.bind gguf loaded.dense.config = .ok binding)
    (hservable : Servable loaded.dense.config loaded.dense.dims binding) {prompt : List TokenId}
    {maxNew : Nat} (hne : prompt ≠ [])
    (hprompt : ∀ token ∈ prompt, token < loaded.tokenizer.tokens.length)
    (hfits : prompt.length + maxNew ≤ loaded.dense.config.contextLength) :
    ((loaded.model.generate prompt maxNew).Ends ValueError fun _ => True) ∧
      ∀ consumer, (loaded.model.generateIncremental prompt maxNew consumer).result.Ends ValueError
        fun _ => True := by
  obtain ⟨hsound, hserved, hnarrow, hvocab⟩ := LoadedDense.ready hload hparse hbind hservable
  have hcontext : loaded.dense.config.contextLength < 2 ^ 64 := by
    have := hnarrow.context
    omega
  refine LoadedModel.generation_ends (DenseModel.serves hsound hserved hnarrow hservable.cache
    hservable.layers hservable.headDim) hcontext hne (fun token htoken => ?_) hfits
  have hlt := hprompt token htoken
  rwa [hvocab] at hlt

end Dense

section Samples

variable [FloatOps]

/-- A file like the unit file is servable. -/
theorem UnitLike.servable {file : List UInt8} (h : UnitLike file) : ∃ gguf binding loaded,
    readMetadataWithLen file (.ofNat file.length) = .ok gguf ∧
    LlamaTensorBinding.bind gguf loaded.dense.config = .ok binding ∧
    LoadedDense.load "model.gguf" file .portable = .ok loaded ∧
    Servable loaded.dense.config loaded.dense.dims binding ∧
    loaded.dense.config = unitConfig ∧ loaded.tokenizer.tokens.length = 3 := by
  obtain ⟨gguf, binding, loaded, hparse, hbind, hload, hconfig, htokens, htypes⟩ := h.loads
  obtain ⟨hdense, vocab, hvocab, hdims⟩ := DenseLlamaDims.fromConfig_eq_ok.mp loaded.dense.dims_eq
  rw [hconfig] at hvocab hdims
  obtain rfl : 3 = vocab := Option.some.inj hvocab
  have hfloat : ∀ desc ∈ binding.descriptors, desc.InFull := fun desc hdesc => .inl (by
    rw [htypes desc hdesc]
    simp)
  have hrows : ∀ desc ∈ binding.descriptors, ∀ width, desc.ProjectsRows width :=
    fun desc hdesc width => ⟨hfloat desc hdesc, fun h => by
      rw [htypes desc hdesc] at h
      exact absurd h (by simp)⟩
  have hscaling : ropeScalingFromConfig unitConfig = .ok ⟨.None, 1, none, none, none⟩ := by
    have hfactor : ¬((1 : F32).le 0 = true ∨ (!(1 : F32).isFinite) = true) := by decide +kernel
    exact if_neg hfactor
  have hservable : Servable loaded.dense.config loaded.dense.dims binding := by
    rw [hconfig, hdims]
    refine ⟨by decide, by decide, by decide, by decide, ?_, ?_, ?_, ?_, ?_, by decide⟩
    · exact ⟨by decide, by decide, by decide, ⟨by decide +kernel, by decide +kernel⟩, _, hscaling⟩
    · exact fun desc hdesc => hfloat desc (LlamaTensorBinding.mem_descriptors_of_readByRows hdesc)
    · rw [htypes binding.tokenEmbedding (by simp [LlamaTensorBinding.descriptors])]
      trivial
    · exact hrows binding.output (by simp [LlamaTensorBinding.descriptors]) _
    · intro layer hlayer projection hprojection
      refine hrows projection.1 (List.mem_append_right _ (List.mem_flatMap.mpr
        ⟨layer, hlayer, ?_⟩)) _
      exact LlamaLayerTensors.mem_descriptors_of_projections hprojection
  exact ⟨gguf, binding, loaded, hparse, hbind, hload, hservable, hconfig, htokens⟩

end Samples

section Samples

attribute [local instance] residueOps

/-- The unit file serves a prompt of two tokens. -/
theorem servable_generation_ends_unit : ∃ loaded,
    LoadedDense.load "model.gguf" unitFile .portable = .ok loaded ∧
    (loaded.model.generate [0, 2] 2).Ends ValueError fun _ => True := by
  obtain ⟨gguf, binding, loaded, hparse, hbind, hload, hservable, hconfig, htokens⟩ :=
    unitFile_unitLike.servable
  refine ⟨loaded, hload, (servable_generation_ends hload hparse hbind hservable (by simp) ?_ ?_).1⟩
  · rw [htokens]
    decide
  · rw [hconfig]
    decide

end Samples

end CamelidEnterprise

import CamelidEnterprise.Engine.CausalDecoder

/-!
# Camelid Enterprise — runs of forward passes

A forward pass on a cache that represents the rows of the tokens before it is one
`step` on those rows (`compute_run`), and a call that fails leaves the cache
representing them (`forwardToken_run`). By induction over the calls,
`forward_eq_reference`: decoding token by token gives the logits of the decoder that
computes every layer for the whole sequence at once.
-/

namespace CamelidEnterprise

open Foundation

section Runs

variable [FloatOps]

namespace DenseModel

variable {model : DenseModel}

-- ---------------------------------------------------------------------------
-- One pass
-- ---------------------------------------------------------------------------

/-- The layers from `k` on, over the cache, are the causal stack over the rows it
holds for them. -/
theorem forwardLayers_run {position : Nat} (layers : List LlamaLayerWeights) :
    ∀ (k : Nat) (kv : LlamaKvCache) (hidden : CpuTensor) (histories : List (List HeadRows)),
      kv.Fits → kv.plan = model.plan → position < kv.allocatedSequenceLength →
      k + layers.length ≤ kv.plan.layerCount → histories.length = layers.length →
      (∀ i history, histories[i]? = some history →
        history.length = position ∧ kv.Holds (k + i) history) →
      ∃ kv', model.decoder.forwardLayers position hidden (layers.zipIdx k) kv =
          ((CausalLayer.nextStack (layers.map model.decoder.causalLayer) histories hidden).map
            Prod.fst, kv') ∧
        kv.Unchanged kv' (fun l p => k ≤ l ∧ p = position) ∧
        ∀ out,
          CausalLayer.nextStack (layers.map model.decoder.causalLayer) histories hidden = .ok out →
          ∀ i history, (CausalLayer.extend histories out.2)[i]? = some history →
            history.length = position + 1 ∧ kv'.Holds (k + i) history := by
  induction layers with
  | nil =>
    intro k kv hidden histories hfits _ _ _ _ _
    refine ⟨kv, rfl, .refl hfits, ?_⟩
    intro out hout i history hget
    obtain rfl := Outcome.ok.inj hout
    have hnil : CausalLayer.extend histories ([] : List HeadRows) = [] := by
      simp [CausalLayer.extend]
    rw [hnil] at hget
    exact absurd hget (by simp)
  | cons layer layers ih =>
    intro k kv hidden histories hfits hplan hposition hcount hlength hheld
    obtain ⟨history, histories', rfl⟩ : ∃ history histories', histories = history :: histories' := by
      rcases histories with _ | ⟨history, histories'⟩
      · exact absurd hlength (by simp)
      · exact ⟨history, histories', rfl⟩
    rw [List.length_cons] at hcount
    obtain ⟨hlen, hholds⟩ := hheld 0 history rfl
    have hk : k < kv.plan.layerCount := by omega
    obtain ⟨kv₁, hrun, hunchanged, hrows⟩ := forwardLayer_run hfits hplan hk hposition hholds hlen
      hidden layer
    have hrun' : model.decoder.forwardLayers position hidden ((layer :: layers).zipIdx k) kv =
        (do
          let hidden ← model.decoder.forwardLayer hidden layer k position
          model.decoder.forwardLayers position hidden (layers.zipIdx (k + 1))) kv := rfl
    rw [hrun', Effect.run_bind, hrun, List.map_cons, CausalLayer.nextStack, List.headD_cons,
      List.tail_cons]
    rcases hnext : (model.decoder.causalLayer layer).next history hidden with first | e | fault
    · have hheld₁ : ∀ i history', histories'[i]? = some history' →
          history'.length = position ∧ kv₁.Holds (k + 1 + i) history' := by
        intro i history' hget
        obtain ⟨hlen', hholds'⟩ := hheld (i + 1) history' hget
        have hi : i < histories'.length := (List.getElem?_eq_some_iff.mp hget).1
        rw [List.length_cons, List.length_cons] at hlength
        rw [show k + (i + 1) = k + 1 + i by omega] at hholds'
        exact ⟨hlen', hunchanged.holds (by omega) (by intro p _ htouched; omega) hholds'⟩
      obtain ⟨kv', hrest, hunchanged', hrows'⟩ := ih (k + 1) kv₁ first.1 histories' hunchanged.fits
        (hunchanged.plan_eq.trans hplan) (by rw [hunchanged.allocated_eq]; exact hposition)
        (by rw [hunchanged.plan_eq]; omega) (by simpa using hlength) hheld₁
      refine ⟨kv', ?_, ?_, ?_⟩
      · rw [Outcome.map_ok, Outcome.ok_bind]
        dsimp only
        rw [hrest]
        rcases CausalLayer.nextStack (layers.map model.decoder.causalLayer) histories' first.1 with
          rest | e | fault
        · rfl
        · rfl
        · rfl
      · refine (hunchanged.mono ?_).trans (hunchanged'.mono ?_)
        · intro l p htouched
          omega
        · intro l p htouched
          omega
      · intro out hout i history' hget
        rw [Outcome.ok_bind] at hout
        obtain ⟨rest, hstack, hout⟩ := Outcome.bind_eq_ok.mp hout
        obtain rfl := Outcome.ok.inj hout
        rcases i with _ | i
        · -- the first layer: untouched by the ones after it
          obtain rfl : history ++ [first.2] = history' := Option.some.inj hget
          refine ⟨by simp; omega, ?_⟩
          refine hunchanged'.holds (by rw [hunchanged.plan_eq]; omega) ?_ (hrows first hnext)
          intro p _ htouched
          omega
        · have hlater := hrows' rest hstack i history' hget
          rw [show k + 1 + i = k + (i + 1) by omega] at hlater
          exact hlater
    · refine ⟨kv₁, rfl, hunchanged.mono ?_, fun out hout => absurd hout (by simp)⟩
      intro l p htouched
      omega
    · refine ⟨kv₁, rfl, hunchanged.mono ?_, fun out hout => absurd hout (by simp)⟩
      intro l p htouched
      omega

/-- The cache holds, for every layer, the rows of the positions before its own. -/
structure Represents (model : DenseModel) (kv : LlamaKvCache) (histories : List (List HeadRows)) :
    Prop where
  fits : kv.Fits
  plan_eq : kv.plan = model.plan
  length_eq : histories.length = model.weights.layers.length
  held : ∀ i history, histories[i]? = some history →
    history.length = kv.position ∧ kv.Holds i history

/-- A cache nothing has been written to yet, grown or not. -/
structure Fresh (model : DenseModel) (kv : LlamaKvCache) : Prop where
  fits : kv.Fits
  plan_eq : kv.plan = model.plan
  position_eq : kv.position = 0

theorem Fresh.represents {kv : LlamaKvCache} (h : model.Fresh kv) :
    model.Represents kv (model.decoder.causalLayers.map fun _ => []) where
  fits := h.fits
  plan_eq := h.plan_eq
  length_eq := by
    rw [List.length_map]
    exact List.length_map _
  held := by
    intro i history hget
    rw [List.getElem?_map] at hget
    obtain ⟨-, -, rfl⟩ := Option.map_eq_some_iff.mp hget
    exact ⟨h.position_eq.symm, fun p rows hrows => absurd hrows (by simp)⟩

/-- The cache of a new decoder is fresh. -/
theorem newCache_fresh {kv : LlamaKvCache} (h : model.newCache = .ok kv) : model.Fresh kv := by
  obtain ⟨dims, -, h⟩ := Outcome.bind_eq_ok.mp h
  obtain ⟨plan, hplan, h⟩ := Outcome.bind_eq_ok.mp h
  obtain ⟨rfl, hfits⟩ := LlamaKvCache.new_fits h
  obtain ⟨dims', hdims, hplan⟩ := Outcome.bind_eq_ok.mp hplan
  obtain rfl : dims' = model.dims := Outcome.ok.inj (hdims.symm.trans model.dims_eq)
  obtain rfl := Outcome.ok.inj hplan
  exact ⟨hfits, rfl, rfl⟩

theorem layers_length (model : DenseModel) :
    model.weights.layers.length = model.dims.blockCount :=
  (LlamaWeights.shaped_of_validate model.dims_eq model.shapes).2.2.2.2.1

/-- A forward pass with room for its position is one step on the rows the cache
represents. Where it fails, the cache still represents them. -/
theorem compute_run {kv : LlamaKvCache} {histories : List (List HeadRows)}
    (h : model.Represents kv histories) {target : Nat}
    (hreserve : kv.reserve (kv.position + 1) = .ok target) (token : TokenId)
    (computeLogits : Bool) :
    ∃ kv', model.decoder.compute token computeLogits kv =
        ((model.decoder.step histories token computeLogits).map Prod.fst, kv') ∧
      kv'.allocatedSequenceLength = target ∧
      (∀ out, model.decoder.step histories token computeLogits = .ok out →
        model.Represents kv' (CausalLayer.extend histories out.2) ∧
          kv'.position = kv.position + 1) ∧
      ((∀ out, model.decoder.step histories token computeLogits ≠ .ok out) →
        model.Represents kv' histories ∧ kv'.position = kv.position) := by
  obtain ⟨hrequired, hgrows, hmax⟩ := LlamaKvCache.reserve_eq_ok h.fits.buffered hreserve
  have hfits := h.fits.grownTo hgrows hmax
  have hposition : kv.position < target := by omega
  have hlayers : model.weights.layers.length = kv.plan.layerCount := by
    rw [h.plan_eq]
    exact model.layers_length
  -- growing copies what every head holds to its new place
  have hheld : ∀ i history, histories[i]? = some history →
      history.length = kv.position ∧ (kv.grownTo target).Holds i history := by
    intro i history hget
    obtain ⟨hlen, hholds⟩ := h.held i history hget
    refine ⟨hlen, ?_⟩
    intro p rows hrows
    obtain ⟨hwidth, hentry⟩ := hholds p rows hrows
    refine ⟨hwidth, ?_⟩
    intro kvHead hhead
    have hp : p < history.length := (List.getElem?_eq_some_iff.mp hrows).1
    have hi : i < histories.length := (List.getElem?_eq_some_iff.mp hget).1
    have hle := h.fits.position_le
    have hlength := h.length_eq
    rw [LlamaKvCache.entry_grownTo h.fits.buffered hgrows (by omega) (by omega) hhead, hentry kvHead hhead]
  have hgrown : model.Represents (kv.grownTo target) histories := ⟨hfits, h.plan_eq, h.length_eq, hheld⟩
  unfold Decoder.compute Decoder.step
  rw [Effect.get_bind, Effect.run_bind, LlamaKvCache.ensurePositionCapacity_eq h.fits.buffered, hreserve]
  dsimp only
  rw [Effect.run_bind, Effect.run_lift]
  rcases model.decoder.embed token with hidden | e | fault
  · obtain ⟨kv', hrun, hunchanged, hrows⟩ := forwardLayers_run
      model.weights.layers 0 (kv.grownTo target) hidden histories hfits h.plan_eq hposition (by rw [LlamaKvCache.grownTo_plan]; omega) h.length_eq
      (by simpa using hheld)
    -- the layers wrote behind the position only, which no history reaches
    have hafter : model.Represents kv' histories := by
      refine ⟨hunchanged.fits, hunchanged.plan_eq.trans h.plan_eq, h.length_eq, ?_⟩
      intro i history hget
      obtain ⟨hlen, hholds⟩ := hheld i history hget
      have hi : i < histories.length := (List.getElem?_eq_some_iff.mp hget).1
      have hlength := h.length_eq
      rw [hunchanged.position_eq, LlamaKvCache.grownTo_position]
      refine ⟨hlen, hunchanged.holds (by rw [LlamaKvCache.grownTo_plan]; omega) ?_ hholds⟩
      intro p hp htouched
      omega
    dsimp only
    rw [Outcome.ok_bind, Effect.run_bind]
    have hrun' : model.decoder.forwardLayers kv.position hidden model.decoder.weights.layers.zipIdx
        (kv.grownTo target) =
        ((CausalLayer.nextStack model.decoder.causalLayers histories hidden).map Prod.fst, kv') :=
      hrun
    rw [hrun']
    rcases hstack : CausalLayer.nextStack model.decoder.causalLayers histories hidden with
      out | e | fault
    · rw [Outcome.map_ok, Outcome.ok_bind]
      dsimp only
      rw [Effect.run_bind, Effect.run_lift]
      rcases model.decoder.answer out.1 computeLogits with logits | e | fault
      · -- `advance`: from here on the new rows count
        refine ⟨{ kv' with position := kv'.position + 1 }, rfl, ?_, ?_, ?_⟩
        · exact hunchanged.allocated_eq
        · intro out' hout
          obtain rfl := Outcome.ok.inj hout
          have hnew := hrows out hstack
          have hadvanced : kv'.position + 1 = kv.position + 1 := by
            rw [hunchanged.position_eq, LlamaKvCache.grownTo_position]
          have hbound : kv'.position + 1 ≤ kv'.allocatedSequenceLength := by
            rw [hadvanced, hunchanged.allocated_eq, LlamaKvCache.grownTo_allocated]
            exact hrequired
          refine ⟨⟨?_, hafter.plan_eq, ?_, ?_⟩, hadvanced⟩
          · exact ⟨hunchanged.fits.keys_length, hunchanged.fits.values_length, hbound,
              hunchanged.fits.allocated_le⟩
          · have hlen : out.2.length = histories.length := by
              rw [h.length_eq]
              exact (CausalLayer.length_of_nextStack hstack).trans (List.length_map _)
            show (List.zipWith _ _ _).length = _
            rw [List.length_zipWith, hlen, Nat.min_self]
            exact h.length_eq
          · intro i history hget
            obtain ⟨hlen, hholds⟩ := hnew i history hget
            rw [Nat.zero_add] at hholds
            exact ⟨hlen.trans hadvanced.symm, hholds⟩
        · intro hfails
          exact absurd rfl (hfails _)
      · exact ⟨kv', rfl, hunchanged.allocated_eq, fun out hout => absurd hout (by simp),
          fun _ => ⟨hafter, hunchanged.position_eq⟩⟩
      · exact ⟨kv', rfl, hunchanged.allocated_eq, fun out hout => absurd hout (by simp),
          fun _ => ⟨hafter, hunchanged.position_eq⟩⟩
    · exact ⟨kv', rfl, hunchanged.allocated_eq, fun out hout => absurd hout (by simp),
        fun _ => ⟨hafter, hunchanged.position_eq⟩⟩
    · exact ⟨kv', rfl, hunchanged.allocated_eq, fun out hout => absurd hout (by simp),
        fun _ => ⟨hafter, hunchanged.position_eq⟩⟩
  · exact ⟨_, rfl, rfl, fun out hout => absurd hout (by simp), fun _ => ⟨hgrown, rfl⟩⟩
  · exact ⟨_, rfl, rfl, fun out hout => absurd hout (by simp), fun _ => ⟨hgrown, rfl⟩⟩

/-- How many positions a cache holds once it has room for the next, or why there
is none. -/
def room (model : DenseModel) (kv : LlamaKvCache) : EngineResult Nat :=
  if kv.position < model.config.contextLength then kv.reserve (kv.position + 1)
  else .err (cacheFullError model.config.contextLength)

/-- A call of `forward_token`, on the rows a cache represents. -/
def turn (model : DenseModel) (kv : LlamaKvCache) (histories : List (List HeadRows))
    (token : TokenId) (computeLogits : Bool) : EngineResult (Option CpuTensor × List HeadRows) := do
  let _ ← model.room kv
  model.decoder.step histories token computeLogits

theorem room_congr {kv kv' : LlamaKvCache} (hplan : kv'.plan = kv.plan)
    (hposition : kv'.position = kv.position)
    (hallocated : kv'.allocatedSequenceLength = kv.allocatedSequenceLength) :
    model.room kv' = model.room kv := by
  unfold room LlamaKvCache.reserve LlamaKvCache.growthTarget
  rw [hplan, hposition, hallocated]

/-- What a call of `forward_token` returns, and what its cache represents after it. -/
theorem forwardToken_run {kv : LlamaKvCache} {histories : List (List HeadRows)}
    (h : model.Represents kv histories) (token : TokenId) (computeLogits : Bool) :
    ∃ kv', model.forwardPass.forwardToken token computeLogits kv =
        ((model.turn kv histories token computeLogits).map Prod.fst, kv') ∧
      (∀ out, model.turn kv histories token computeLogits = .ok out →
        model.Represents kv' (CausalLayer.extend histories out.2) ∧
          kv'.position = kv.position + 1 ∧ model.room kv = .ok kv'.allocatedSequenceLength ∧
          model.decoder.step histories token computeLogits = .ok out) ∧
      ((∀ out, model.turn kv histories token computeLogits ≠ .ok out) →
        model.Represents kv' histories ∧ kv'.position = kv.position ∧
          model.room kv' = model.room kv) := by
  unfold ForwardPass.forwardToken turn room
  by_cases hfree : kv.position < model.config.contextLength
  · have hfree' : model.forwardPass.position kv < model.forwardPass.contextLength := hfree
    rw [if_pos hfree', if_pos hfree]
    rcases hreserve : kv.reserve (kv.position + 1) with target | e | fault
    · obtain ⟨kv', hrun, hallocated, hdone, hfailed⟩ := compute_run h hreserve token computeLogits
      rw [Outcome.ok_bind]
      refine ⟨kv', hrun, ?_, ?_⟩
      · intro out hout
        obtain ⟨hrep, hposition⟩ := hdone out hout
        exact ⟨hrep, hposition, by rw [hallocated], hout⟩
      · intro hfails
        obtain ⟨hrep, hposition⟩ := hfailed hfails
        refine ⟨hrep, hposition, ?_⟩
        -- the cache has grown all the same, and asks for no more at the next try
        have hkept := LlamaKvCache.reserve_grownTo h.fits.buffered hreserve
        rw [hposition, if_pos hfree, ← hkept]
        unfold LlamaKvCache.reserve LlamaKvCache.growthTarget
        rw [hrep.plan_eq, ← h.plan_eq, hallocated]
        rfl
    · have hrun : model.decoder.compute token computeLogits kv = (.err e, kv) := by
        unfold Decoder.compute
        rw [Effect.get_bind, Effect.run_bind, LlamaKvCache.ensurePositionCapacity_eq h.fits.buffered,
          hreserve]
      refine ⟨kv, hrun, fun out hout => absurd hout (by simp), fun _ => ⟨h, rfl, ?_⟩⟩
      rw [if_pos hfree, hreserve]
    · have hrun : model.decoder.compute token computeLogits kv = (.fault fault, kv) := by
        unfold Decoder.compute
        rw [Effect.get_bind, Effect.run_bind, LlamaKvCache.ensurePositionCapacity_eq h.fits.buffered,
          hreserve]
      refine ⟨kv, hrun, fun out hout => absurd hout (by simp), fun _ => ⟨h, rfl, ?_⟩⟩
      rw [if_pos hfree, hreserve]
  · have hfull : ¬ model.forwardPass.position kv < model.forwardPass.contextLength := hfree
    rw [if_neg hfull, if_neg hfree]
    refine ⟨kv, rfl, fun out hout => absurd hout (by simp), fun _ => ⟨h, rfl, ?_⟩⟩
    rw [if_neg hfree]

end DenseModel

-- ---------------------------------------------------------------------------
-- Calls
-- ---------------------------------------------------------------------------

/-- A call of `forward_token`. -/
structure ForwardCall where
  token : TokenId
  computeLogits : Bool
deriving DecidableEq, Repr

namespace ForwardPass

variable {δ Λ : Type}

/-- Calls that all have to succeed. -/
def forwardAll (pass : ForwardPass δ Λ) : List ForwardCall → Effect δ EngineError (List (Option Λ))
  | [] => pure []
  | call :: calls => do
    let answer ← pass.forwardToken call.token call.computeLogits
    let answers ← pass.forwardAll calls
    pure (answer :: answers)

omit [FloatOps] in
/-- The first calls of a run that succeeded. -/
theorem forwardAll_take {pass : ForwardPass δ Λ} {calls : List ForwardCall} {s s' : δ}
    {answers : List (Option Λ)} (h : pass.forwardAll calls s = (.ok answers, s')) (n : Nat) :
    ∃ s'', pass.forwardAll (calls.take n) s = (.ok (answers.take n), s'') := by
  induction calls generalizing s answers n with
  | nil =>
    obtain ⟨hanswers, rfl⟩ := Prod.mk.inj h
    obtain rfl := Outcome.ok.inj hanswers
    exact ⟨s, by rw [List.take_nil, List.take_nil]; rfl⟩
  | cons call calls ih =>
    obtain ⟨answer, s₁, hfirst, h⟩ := Effect.bind_eq_ok.mp h
    obtain ⟨rest, s₂, hrest, h⟩ := Effect.bind_eq_ok.mp h
    obtain ⟨hanswers, rfl⟩ := Prod.mk.inj h
    obtain rfl := Outcome.ok.inj hanswers
    rcases n with _ | n
    · exact ⟨s, rfl⟩
    · obtain ⟨s'', htake⟩ := ih hrest n
      refine ⟨s'', ?_⟩
      rw [List.take_succ_cons, List.take_succ_cons, forwardAll, Effect.bind_ok hfirst,
        Effect.bind_ok htake]
      rfl

end ForwardPass

-- ---------------------------------------------------------------------------
-- The whole-sequence decoder
-- ---------------------------------------------------------------------------

namespace DenseModel

variable {model : DenseModel}

/-- The hidden states of a token list: every layer for the whole sequence at once,
each position attending to the rounded rows of the positions up to its own. -/
def referenceHiddens (model : DenseModel) (tokens : List TokenId) :
    EngineResult (List CpuTensor) := do
  let embedded ← tokens.mapM model.decoder.embed
  CausalLayer.wholeStack model.decoder.causalLayers embedded

/-- The logits of position `p` of a token list. -/
def referenceLogits (model : DenseModel) (tokens : List TokenId) (p : Nat) :
    EngineResult CpuTensor := do
  let hiddens ← model.referenceHiddens tokens
  let hidden ← Outcome.orPanic hiddens[p]?
  model.decoder.logits hidden

/-- The cache represents the rows these tokens leave, which the stack turns into
these hidden states. -/
structure Prefilled (model : DenseModel) (tokens : List TokenId) (kv : LlamaKvCache)
    (outputs : List CpuTensor) : Prop where
  filled : ∃ embedded histories, tokens.mapM model.decoder.embed = .ok embedded ∧
    CausalLayer.Filled model.decoder.causalLayers embedded histories outputs ∧
    model.Represents kv histories

theorem Prefilled.length_eq {tokens : List TokenId} {kv : LlamaKvCache} {outputs : List CpuTensor}
    (h : model.Prefilled tokens kv outputs) : outputs.length = tokens.length := by
  obtain ⟨embedded, histories, hembedded, hfilled, -⟩ := h.filled
  rw [hfilled.length_eq, Outcome.length_of_mapM hembedded]

theorem Prefilled.referenceHiddens_eq {tokens : List TokenId} {kv : LlamaKvCache}
    {outputs : List CpuTensor} (h : model.Prefilled tokens kv outputs) :
    model.referenceHiddens tokens = .ok outputs := by
  obtain ⟨embedded, histories, hembedded, hfilled, -⟩ := h.filled
  unfold referenceHiddens
  rw [hembedded, Outcome.ok_bind, hfilled.whole_eq]

theorem Fresh.prefilled {kv : LlamaKvCache} (h : model.Fresh kv) : model.Prefilled [] kv [] :=
  ⟨[], _, rfl, CausalLayer.filled_empty _, h.represents⟩

/-- One more token, fed through the cache, extends the hidden states; its logits
are those of its own. -/
theorem Prefilled.snoc {tokens : List TokenId} {kv kv' : LlamaKvCache} {outputs : List CpuTensor}
    (h : model.Prefilled tokens kv outputs) {call : ForwardCall} {answer : Option CpuTensor}
    (hrun : model.forwardPass.forwardToken call.token call.computeLogits kv = (.ok answer, kv')) :
    ∃ output, model.Prefilled (tokens ++ [call.token]) kv' (outputs ++ [output]) ∧
      model.decoder.answer output call.computeLogits = .ok answer := by
  obtain ⟨embedded, histories, hembedded, hfilled, hrep⟩ := h.filled
  obtain ⟨kv₁, hrun', hdone, -⟩ := forwardToken_run hrep call.token call.computeLogits
  obtain ⟨hresult, rfl⟩ := Prod.mk.inj (hrun'.symm.trans hrun)
  rcases hturn : model.turn kv histories call.token call.computeLogits with out | e | fault
  · obtain ⟨hrep', -, -, hstep⟩ := hdone out hturn
    rw [hturn, Outcome.map_ok] at hresult
    obtain rfl := Outcome.ok.inj hresult
    obtain ⟨hidden, hembed, hstep⟩ := Outcome.bind_eq_ok.mp hstep
    obtain ⟨stacked, hstack, hstep⟩ := Outcome.bind_eq_ok.mp hstep
    obtain ⟨logits, hlogits, hstep⟩ := Outcome.bind_eq_ok.mp hstep
    obtain rfl := Outcome.ok.inj hstep
    refine ⟨stacked.1, ⟨embedded ++ [hidden], _, ?_, hfilled.snoc hstack, hrep'⟩, hlogits⟩
    rw [Outcome.mapM_append, hembedded, Outcome.ok_bind, Outcome.mapM_cons, hembed]
    rfl
  · rw [hturn] at hresult
    exact absurd hresult (by simp)
  · rw [hturn] at hresult
    exact absurd hresult (by simp)

/-- A run of calls that all succeed. -/
theorem Prefilled.run {tokens : List TokenId} {kv kv' : LlamaKvCache} {outputs : List CpuTensor}
    (h : model.Prefilled tokens kv outputs) {calls : List ForwardCall}
    {answers : List (Option CpuTensor)}
    (hrun : model.forwardPass.forwardAll calls kv = (.ok answers, kv')) :
    ∃ outputs', model.Prefilled (tokens ++ calls.map ForwardCall.token) kv' (outputs ++ outputs') ∧
      ∀ (i : Nat) (call : ForwardCall), calls[i]? = some call → ∃ answer output, answers[i]? = some answer ∧
        outputs'[i]? = some output ∧ model.decoder.answer output call.computeLogits = .ok answer := by
  induction calls generalizing tokens kv outputs answers with
  | nil =>
    obtain ⟨-, rfl⟩ := Prod.mk.inj hrun
    refine ⟨[], by simpa using h, ?_⟩
    intro i call hcall
    exact absurd hcall (by simp)
  | cons call calls ih =>
    obtain ⟨answer, kv₁, hfirst, hrun⟩ := Effect.bind_eq_ok.mp hrun
    obtain ⟨answers', kv₂, hrest, hrun⟩ := Effect.bind_eq_ok.mp hrun
    obtain ⟨hanswers, rfl⟩ := Prod.mk.inj hrun
    obtain rfl := Outcome.ok.inj hanswers
    obtain ⟨output, hprefilled, hanswer⟩ := h.snoc hfirst
    obtain ⟨outputs', hprefilled', hall⟩ := ih hprefilled hrest
    refine ⟨output :: outputs', by simpa using hprefilled', ?_⟩
    intro i call' hcall
    rcases i with _ | i
    · obtain rfl := Option.some.inj hcall
      exact ⟨answer, output, rfl, rfl, hanswer⟩
    · exact hall i call' hcall

/-- The logits a run returns are those of the whole-sequence decoder. -/
theorem forwardAll_logits {kv₀ kv : LlamaKvCache} (hfresh : model.Fresh kv₀)
    {calls : List ForwardCall} {answers : List (Option CpuTensor)}
    (hrun : model.forwardPass.forwardAll calls kv₀ = (.ok answers, kv)) {p : Nat} {token : TokenId}
    (hcall : calls[p]? = some ⟨token, true⟩) :
    ∃ logits, answers[p]? = some (some logits) ∧
      model.referenceLogits (calls.map ForwardCall.token) p = .ok logits := by
  obtain ⟨outputs, hprefilled, hall⟩ := hfresh.prefilled.run hrun
  obtain ⟨answer, output, hanswer, houtput, hlogits⟩ := hall p _ hcall
  rw [Decoder.answer, if_pos rfl] at hlogits
  obtain ⟨logits, hcomputed, hsome⟩ := Outcome.bind_eq_ok.mp hlogits
  obtain rfl := Outcome.ok.inj hsome
  refine ⟨logits, hanswer, ?_⟩
  have hhiddens := hprefilled.referenceHiddens_eq
  rw [List.nil_append, List.nil_append] at hhiddens
  unfold referenceLogits
  rw [hhiddens, Outcome.ok_bind, houtput]
  exact hcomputed

/-- **Token by token is whole sequence.** From a cache nothing has been written to,
a run of calls that all succeed returns at position `p` the logits of the decoder
that computes each layer for all positions at once, on all tokens and on the tokens
up to `p` alike; so another run, with the same tokens up to `p` but other calls
without logits and a cache grown otherwise, returns the same. -/
theorem forward_eq_reference {kv₀ kv : LlamaKvCache} (hfresh : model.Fresh kv₀)
    {calls : List ForwardCall} {answers : List (Option CpuTensor)}
    (hrun : model.forwardPass.forwardAll calls kv₀ = (.ok answers, kv)) {p : Nat} {token : TokenId}
    (hcall : calls[p]? = some ⟨token, true⟩) :
    ∃ logits, answers[p]? = some (some logits) ∧
      model.referenceLogits (calls.map ForwardCall.token) p = .ok logits ∧
      model.referenceLogits ((calls.map ForwardCall.token).take (p + 1)) p = .ok logits ∧
      ∀ kv₀' kv' calls' answers', model.Fresh kv₀' →
        model.forwardPass.forwardAll calls' kv₀' = (.ok answers', kv') →
        (calls'.map ForwardCall.token).take (p + 1) =
          (calls.map ForwardCall.token).take (p + 1) →
        calls'[p]? = some ⟨token, true⟩ → answers'[p]? = some (some logits) := by
  have hprefix : ∀ {kv₀ kv : LlamaKvCache} {calls : List ForwardCall}
      {answers : List (Option CpuTensor)}, model.Fresh kv₀ →
      model.forwardPass.forwardAll calls kv₀ = (.ok answers, kv) →
      calls[p]? = some ⟨token, true⟩ → ∃ logits, answers[p]? = some (some logits) ∧
        model.referenceLogits ((calls.map ForwardCall.token).take (p + 1)) p = .ok logits := by
    intro kv₀ kv calls answers hfresh hrun hcall
    obtain ⟨kv', htake⟩ := ForwardPass.forwardAll_take hrun (p + 1)
    have htook : (calls.take (p + 1))[p]? = some ⟨token, true⟩ := by
      rw [List.getElem?_take_of_lt (Nat.lt_succ_self p), hcall]
    obtain ⟨logits, hanswer, hreference⟩ := forwardAll_logits hfresh htake htook
    rw [List.getElem?_take_of_lt (by omega)] at hanswer
    rw [List.map_take] at hreference
    exact ⟨logits, hanswer, hreference⟩
  obtain ⟨logits, hanswer, hreference⟩ := forwardAll_logits hfresh hrun hcall
  obtain ⟨logits', hanswer', hreference'⟩ := hprefix hfresh hrun hcall
  obtain rfl : logits = logits' := by
    have hsame := hanswer.symm.trans hanswer'
    exact Option.some.inj (Option.some.inj hsame)
  refine ⟨logits, hanswer, hreference, hreference', ?_⟩
  intro kv₀' kv' calls' answers' hfresh' hrun' htokens hcall'
  obtain ⟨logits', hanswer'', hreference''⟩ := hprefix hfresh' hrun' hcall'
  rw [htokens, hreference'] at hreference''
  obtain rfl := Outcome.ok.inj hreference''
  exact hanswer''

end DenseModel

end Runs

-- ---------------------------------------------------------------------------
-- A small model
-- ---------------------------------------------------------------------------

/-- An arithmetic in which every operation gives one. -/
@[reducible] def unitOps : FloatOps where
  add _ _ := ⟨0x3f800000⟩
  sub _ _ := ⟨0x3f800000⟩
  mul _ _ := ⟨0x3f800000⟩
  div _ _ := ⟨0x3f800000⟩
  powf _ _ := ⟨0x3f800000⟩
  max _ _ := ⟨0x3f800000⟩
  min _ _ := ⟨0x3f800000⟩
  sqrt _ := ⟨0x3f800000⟩
  exp _ := ⟨0x3f800000⟩
  ln _ := ⟨0x3f800000⟩
  floor _ := ⟨0x3f800000⟩
  ceil _ := ⟨0x3f800000⟩
  round _ := ⟨0x3f800000⟩
  sin _ := ⟨0x3f800000⟩
  cos _ := ⟨0x3f800000⟩
  display _ := ""

/-- A tensor of ones. -/
def onesTensor (dims : List Nat) : CpuTensor :=
  { name := [], dims, sourceType := some .F32, q8_0Blocks := none, q4KWireBytes := none
    q5KWireBytes := none, q6KWireBytes := none, data := List.replicate dims.prod ⟨0x3f800000⟩ }

/-- Two query heads on one key and value head, with QK norms. -/
def smallLayer : LlamaLayerWeights :=
  { attentionNorm := onesTensor [4], attentionQ := onesTensor [4, 4]
    attentionK := onesTensor [4, 2], attentionV := onesTensor [2, 4]
    attentionOutput := onesTensor [4, 4], attentionQNorm := some (onesTensor [2])
    attentionKNorm := some (onesTensor [2]), ffnNorm := onesTensor [4]
    ffnGate := onesTensor [4, 1], ffnUp := onesTensor [4, 1], ffnDown := onesTensor [1, 4] }

/-- Two layers, two tokens, and room for two positions. -/
def smallModel : @DenseModel unitOps :=
  letI := unitOps
  { config :=
      { contextLength := 2, embeddingLength := 4, blockCount := 2, feedForwardLength := 1
        attentionHeadCount := 2, attentionHeadCountKv := 1, ropeDimensionCount := none
        ropeFreqBase := none, ropeScalingType := none, ropeScalingFactor := none
        ropeScalingOriginalContextLength := none, ropeScalingLowFreqFactor := none
        ropeScalingHighFreqFactor := none, rmsNormEpsilon := 0, vocabSize := some 2
        fileType := none, attentionKeyLength := none, ropeNeoxPairing := true }
    weights :=
      { tokenEmbedding := onesTensor [2, 4], outputNorm := onesTensor [4], output := none
        ropeFreqs := none, layers := [smallLayer, smallLayer] }
    projection := .portable
    dims := ⟨4, 2, 1, 1, 2, 4, 2, 2⟩
    dims_eq := by decide +kernel
    shapes := by decide +kernel }

/-- The cache of a new decoder of the small model. -/
def smallCache : LlamaKvCache := ⟨⟨2, 2, 1, 2⟩, [], [], 0, 0⟩

/-- The logits the small model returns at every position. -/
def smallLogits : CpuTensor :=
  { onesTensor [1, 2] with name := "logits".toList, sourceType := none }

theorem smallModel_fresh :
    letI := unitOps
    smallModel.Fresh smallCache :=
  letI := unitOps
  DenseModel.newCache_fresh (by decide +kernel)

theorem DenseModel.forward_eq_reference_small :
    letI := unitOps
    smallModel.referenceLogits [1, 0] 1 = .ok smallLogits := by
  let : FloatOps := unitOps
  have hrun : (smallModel.forwardPass.forwardAll [⟨1, false⟩, ⟨0, true⟩] smallCache).1 =
      .ok [none, some smallLogits] := by decide +kernel
  have hcall : ([⟨1, false⟩, ⟨0, true⟩] : List ForwardCall)[1]? = some ⟨0, true⟩ := rfl
  obtain ⟨logits, hanswer, hreference, -⟩ :=
    forward_eq_reference smallModel_fresh (Prod.ext hrun rfl : _ = (_, _)) hcall
  obtain rfl := Option.some.inj (Option.some.inj hanswer)
  exact hreference

end CamelidEnterprise

import CamelidEnterprise.Foundation.Causal
import CamelidEnterprise.Engine.Forward

/-!
# Camelid Enterprise — the decoder as a stack of causal layers

What a transformer layer computes, without a cache: `causalLayer` projects a hidden
state at its position to a query row and to the rounded key and value rows it
leaves, and combines it with the rows of the positions up to its own. `step` is one
token through the stack, given the rows every layer has kept.

The cache is where those rows are kept: `Represents` says that it holds them, and
`compute_run` that one forward pass is `step` on the rows it holds. A pass that
fails leaves the rows of the positions before it alone, so it leaves the cache
representing what it did.
-/

namespace CamelidEnterprise

open Foundation

variable [FloatOps]

/-- The key and value rows one position leaves in a layer, head by head. -/
abbrev HeadRows := List (List F32 × List F32)

/-- A key and value row, rounded through half precision. -/
def roundRow (row : List F32 × List F32) : List F32 × List F32 :=
  (row.1.map kvRound, row.2.map kvRound)

/-- One query head over the rows of a key/value head, in order: the first position
copies its value row, a later one is the softmax of its scores. -/
def attendHead (headDim : Nat) (qHead : List F32) (kvHead : Nat) (history : List HeadRows) :
    EngineResult (List F32) := do
  let rows ← history.mapM fun heads => Outcome.orPanic heads[kvHead]?
  match rows with
  | [first] => .ok first.2
  | _ => do
    let scores ← rows.mapM fun row => do
      let dot ← dotProduct qHead row.1
      .ok (dot * attentionScale headDim)
    let softmax ← softmaxScores scores
    .ok ((softmax.1.zip rows).foldl
      (fun out scored => axpy (scored.1 * softmax.2) out scored.2.2) (List.replicate headDim 0))

namespace Decoder

/-- The context of a query row: query head `h` reads key/value head
`h / (heads / kv_heads)`. -/
def attend (decoder : Decoder) (q : List F32) (history : List HeadRows) :
    EngineResult (List F32) := do
  let repeats := decoder.attentionHeadCount / decoder.dims.attentionHeadCountKv
  let heads ← (List.range decoder.attentionHeadCount).mapM fun head => do
    let qHead ← Outcome.orPanic (Rows.row q decoder.dims.headDim head)
    attendHead decoder.dims.headDim qHead (head / repeats) history
  .ok heads.flatten

/-- The rounded rows of these heads. -/
def leave (decoder : Decoder) (k v : List F32) (heads : List Nat) : EngineResult HeadRows :=
  heads.mapM fun kvHead => do
    let row ← decoder.headRow k v kvHead
    .ok (roundRow row)

/-- One transformer layer. -/
def causalLayer (decoder : Decoder) (layer : LlamaLayerWeights) :
    CausalLayer EngineError CpuTensor (List F32) HeadRows where
  project position hidden := do
    let projected ← decoder.project layer position hidden
    let rows ← decoder.leave projected.2.1 projected.2.2
      (List.range decoder.dims.attentionHeadCountKv)
    .ok (projected.1, rows)
  combine hidden q history := do
    let context ← decoder.attend q history
    decoder.finish layer hidden context

/-- The layers of a decoder. -/
def causalLayers (decoder : Decoder) :
    List (CausalLayer EngineError CpuTensor (List F32) HeadRows) :=
  decoder.weights.layers.map decoder.causalLayer

/-- One token, after the positions that left these rows. -/
def step (decoder : Decoder) (histories : List (List HeadRows)) (token : TokenId)
    (computeLogits : Bool) : EngineResult (Option CpuTensor × List HeadRows) := do
  let hidden ← decoder.embed token
  let out ← CausalLayer.nextStack decoder.causalLayers histories hidden
  let logits ← decoder.answer out.1 computeLogits
  .ok (logits, out.2)

end Decoder

-- ---------------------------------------------------------------------------
-- The rows a cache holds
-- ---------------------------------------------------------------------------

/-- The plan `LlamaKvCachePlan::from_config` makes of the configuration. -/
def DenseModel.plan (model : DenseModel) : LlamaKvCachePlan :=
  { maxSequenceLength := model.config.contextLength
    layerCount := model.dims.blockCount
    kvHeadCount := model.dims.attentionHeadCountKv
    headDim := model.dims.headDim }

/-- The rows of a layer are these, position by position. -/
def LlamaKvCache.Holds (kv : LlamaKvCache) (layerIdx : Nat) (history : List HeadRows) : Prop :=
  ∀ p rows, history[p]? = some rows → rows.length = kv.plan.kvHeadCount ∧
    ∀ kvHead < kv.plan.kvHeadCount, kv.entry layerIdx p kvHead = rows[kvHead]?

/-- The two caches differ at most in the rows of the layers and positions touched. -/
structure LlamaKvCache.Unchanged (kv kv' : LlamaKvCache) (touched : Nat → Nat → Prop) : Prop where
  fits : kv'.Fits
  plan_eq : kv'.plan = kv.plan
  position_eq : kv'.position = kv.position
  allocated_eq : kv'.allocatedSequenceLength = kv.allocatedSequenceLength
  entry_eq : ∀ layerIdx < kv.plan.layerCount, ∀ p, ∀ kvHead < kv.plan.kvHeadCount,
    ¬ touched layerIdx p → kv'.entry layerIdx p kvHead = kv.entry layerIdx p kvHead

namespace LlamaKvCache

variable {kv kv' kv'' : LlamaKvCache} {touched touched' : Nat → Nat → Prop}

omit [FloatOps] in
theorem Unchanged.refl (hfits : kv.Fits) : kv.Unchanged kv touched :=
  ⟨hfits, rfl, rfl, rfl, fun _ _ _ _ _ _ => rfl⟩

omit [FloatOps] in
theorem Unchanged.trans (h : kv.Unchanged kv' touched) (h' : kv'.Unchanged kv'' touched) :
    kv.Unchanged kv'' touched where
  fits := h'.fits
  plan_eq := h'.plan_eq.trans h.plan_eq
  position_eq := h'.position_eq.trans h.position_eq
  allocated_eq := h'.allocated_eq.trans h.allocated_eq
  entry_eq := by
    intro layerIdx hlayer p kvHead hhead hnot
    rw [h'.entry_eq layerIdx (by rw [h.plan_eq]; exact hlayer) p kvHead
      (by rw [h.plan_eq]; exact hhead) hnot, h.entry_eq layerIdx hlayer p kvHead hhead hnot]

omit [FloatOps] in
theorem Unchanged.mono (h : kv.Unchanged kv' touched)
    (himp : ∀ layerIdx p, touched layerIdx p → touched' layerIdx p) :
    kv.Unchanged kv' touched' :=
  ⟨h.fits, h.plan_eq, h.position_eq, h.allocated_eq, fun layerIdx hlayer p kvHead hhead hnot =>
    h.entry_eq layerIdx hlayer p kvHead hhead fun ht => hnot (himp layerIdx p ht)⟩

omit [FloatOps] in
/-- Rows that are not touched are still held. -/
theorem Unchanged.holds (h : kv.Unchanged kv' touched) {layerIdx : Nat} {history : List HeadRows}
    (hlayer : layerIdx < kv.plan.layerCount)
    (hnot : ∀ p < history.length, ¬ touched layerIdx p) (hholds : kv.Holds layerIdx history) :
    kv'.Holds layerIdx history := by
  intro p rows hrows
  obtain ⟨hlen, hentry⟩ := hholds p rows hrows
  have hp : p < history.length := (List.getElem?_eq_some_iff.mp hrows).1
  rw [h.plan_eq]
  refine ⟨hlen, ?_⟩
  intro kvHead hhead
  rw [h.entry_eq layerIdx hlayer p kvHead hhead (hnot p hp), hentry kvHead hhead]

omit [FloatOps] in
/-- One position more is held. -/
theorem Holds.snoc {layerIdx : Nat} {history : List HeadRows} {rows : HeadRows}
    (hholds : kv.Holds layerIdx history) (hlen : rows.length = kv.plan.kvHeadCount)
    (hentry : ∀ kvHead < kv.plan.kvHeadCount,
      kv.entry layerIdx history.length kvHead = rows[kvHead]?) :
    kv.Holds layerIdx (history ++ [rows]) := by
  intro p rows' hrows
  rcases Nat.lt_trichotomy p history.length with hlt | heq | hgt
  · rw [List.getElem?_append_left hlt] at hrows
    exact hholds p rows' hrows
  · subst heq
    rw [List.getElem?_append_right (Nat.le_refl _), Nat.sub_self] at hrows
    obtain rfl := Option.some.inj hrows
    exact ⟨hlen, hentry⟩
  · rw [List.getElem?_eq_none (by simp; omega)] at hrows
    exact absurd hrows (by simp)

end LlamaKvCache

-- ---------------------------------------------------------------------------
-- Attention over the cache
-- ---------------------------------------------------------------------------

omit [FloatOps] in
/-- The rows of one head, as they are read position by position. -/
theorem LlamaKvCache.Holds.head {kv : LlamaKvCache} {layerIdx kvHead : Nat}
    {history : List HeadRows} (hholds : kv.Holds layerIdx history)
    (hhead : kvHead < kv.plan.kvHeadCount) :
    ∃ rows : List (List F32 × List F32),
      (history.mapM fun heads => (Outcome.orPanic heads[kvHead]? : EngineResult _)) = .ok rows ∧
      rows.length = history.length ∧
      ∀ p row, rows[p]? = some row →
        kv.keyRow layerIdx p kvHead = .ok row.1 ∧ kv.valueRow layerIdx p kvHead = .ok row.2 ∧
          row.2.length = kv.plan.headDim := by
  have hget : ∀ heads ∈ history, (Outcome.orPanic heads[kvHead]? : EngineResult _) =
      .ok (heads[kvHead]?.getD ([], [])) := by
    intro heads hmem
    obtain ⟨p, hp⟩ := List.mem_iff_getElem?.mp hmem
    have hlt : kvHead < heads.length := by
      rw [(hholds p heads hp).1]
      exact hhead
    rw [List.getElem?_eq_getElem hlt]
    rfl
  refine ⟨history.map fun heads => heads[kvHead]?.getD ([], []), ?_, by simp, ?_⟩
  · rw [Outcome.mapM_congr hget, Outcome.mapM_ok]
  · intro p row hrow
    rw [List.getElem?_map] at hrow
    obtain ⟨heads, hheads, hrow⟩ := Option.map_eq_some_iff.mp hrow
    obtain ⟨hlen, hentry⟩ := hholds p heads hheads
    have hlt : kvHead < heads.length := by omega
    rw [List.getElem?_eq_getElem hlt, Option.getD_some] at hrow
    have hsome : kv.entry layerIdx p kvHead = some row := by
      rw [hentry kvHead hhead, List.getElem?_eq_getElem hlt, hrow]
    obtain ⟨hkey, hvalue⟩ := LlamaKvCache.entry_eq_some.mp hsome
    refine ⟨hkey, hvalue, ?_⟩
    exact Rows.length_of_slice (Outcome.orPanic_eq_ok.mp hvalue)

/-- The weighted sum reads the value rows in order. -/
theorem foldlM_valueRow {kv : LlamaKvCache} {layerIdx kvHead : Nat} (invSum : F32) :
    ∀ (exponentials : List F32) (rows : List (List F32 × List F32)) (k : Nat) (out : List F32),
      exponentials.length = rows.length →
      (∀ p row, rows[p]? = some row → kv.valueRow layerIdx (k + p) kvHead = .ok row.2) →
      (exponentials.zipIdx k).foldlM (fun out scored => do
          let value ← kv.valueRow layerIdx scored.2 kvHead
          .ok (axpy (scored.1 * invSum) out value)) out =
        .ok ((exponentials.zip rows).foldl
          (fun out scored => axpy (scored.1 * invSum) out scored.2.2) out)
  | [], [], _, _, _, _ => rfl
  | [], _ :: _, _, _, hlen, _ => absurd hlen (by simp)
  | _ :: _, [], _, _, hlen, _ => absurd hlen (by simp)
  | score :: exponentials, row :: rows, k, out, hlen, hread => by
    have hfirst : kv.valueRow layerIdx k kvHead = .ok row.2 := hread 0 row rfl
    have hrest : ∀ p row', rows[p]? = some row' →
        kv.valueRow layerIdx (k + 1 + p) kvHead = .ok row'.2 := by
      intro p row' hrow
      have hread' := hread (p + 1) row' hrow
      rw [show k + (p + 1) = k + 1 + p by omega] at hread'
      exact hread'
    rw [List.zipIdx_cons, List.foldlM_cons, hfirst, Outcome.ok_bind, Outcome.ok_bind,
      foldlM_valueRow invSum exponentials rows (k + 1) _ (by simpa using hlen) hrest]
    rfl

/-- A query head over the cache is the query head over the rows it holds. -/
theorem attentionHead_eq {kv : LlamaKvCache} {layerIdx position kvHead : Nat}
    {history : List HeadRows} (hholds : kv.Holds layerIdx history)
    (hlen : history.length = position + 1) (hhead : kvHead < kv.plan.kvHeadCount)
    (qHead : List F32) :
    attentionHead qHead kv layerIdx position kv.plan.headDim kvHead =
      attendHead kv.plan.headDim qHead kvHead history := by
  obtain ⟨rows, hrows, hrowsLen, hread⟩ := hholds.head hhead
  unfold attentionHead attendHead
  rw [hrows, Outcome.ok_bind]
  by_cases hfirst : position + 1 = 1
  · -- the first position: no softmax
    obtain ⟨row, rfl⟩ : ∃ row, rows = [row] := List.length_eq_one_iff.mp (by omega)
    obtain ⟨-, hvalue, hwidth⟩ := hread 0 row rfl
    rw [if_pos hfirst, hvalue, Outcome.ok_bind]
    unfold copyFromSlice
    rw [if_neg (by omega)]
  · rw [if_neg hfirst]
    have hscores : ((List.range (position + 1)).mapM fun p => do
        let key ← kv.keyRow layerIdx p kvHead
        let dot ← dotProduct qHead key
        .ok (dot * attentionScale kv.plan.headDim) : EngineResult (List F32)) =
        rows.mapM (fun row => do
          let dot ← dotProduct qHead row.1
          .ok (dot * attentionScale kv.plan.headDim)) := by
      have hrange := Outcome.mapM_range_getElem? (fun row? : Option (List F32 × List F32) => do
        let row ← (Outcome.orPanic row? : EngineResult _)
        let dot ← dotProduct qHead row.1
        .ok (dot * attentionScale kv.plan.headDim)) rows
      rw [← hlen, ← hrowsLen]
      refine Eq.trans (Outcome.mapM_congr ?_) hrange
      intro p hp
      have hlt : p < rows.length := List.mem_range.mp hp
      have hsome := List.getElem?_eq_getElem hlt
      rw [(hread p _ hsome).1, hsome]
      rfl
    obtain ⟨row₀, row₁, rest, rfl⟩ : ∃ row₀ row₁ rest, rows = row₀ :: row₁ :: rest := by
      rcases rows with _ | ⟨row₀, _ | ⟨row₁, rest⟩⟩
      · exact absurd hrowsLen (by rw [hlen]; simp)
      · exact absurd hrowsLen (by rw [hlen]; simp; omega)
      · exact ⟨row₀, row₁, rest, rfl⟩
    rw [hscores]
    dsimp only
    generalize hdots : ((row₀ :: row₁ :: rest).mapM fun row => do
      let dot ← dotProduct qHead row.1
      .ok (dot * attentionScale kv.plan.headDim) : EngineResult (List F32)) = dots
    rcases dots with scores | e | k
    · rw [Outcome.ok_bind, Outcome.ok_bind]
      rcases hsoftmax : softmaxScores scores with softmax | e | k
      · rw [Outcome.ok_bind, Outcome.ok_bind]
        have hexponentials : softmax.1.length = (row₀ :: row₁ :: rest).length := by
          rw [← Outcome.length_of_mapM hdots]
          unfold softmaxScores at hsoftmax
          dsimp only at hsoftmax
          split at hsoftmax
          · exact absurd hsoftmax (by simp)
          · obtain rfl := Outcome.ok.inj hsoftmax
            exact List.length_map _
        refine foldlM_valueRow softmax.2 softmax.1 _ 0 _ hexponentials ?_
        intro p row hrow
        rw [Nat.zero_add]
        exact (hread p row hrow).2.1
      · rfl
      · rfl
    · rfl
    · rfl

-- ---------------------------------------------------------------------------
-- One layer
-- ---------------------------------------------------------------------------

namespace DenseModel

variable {model : DenseModel}

theorem dense (model : DenseModel) : model.config.Dense :=
  (DenseLlamaDims.fromConfig_eq_ok.mp model.dims_eq).1

theorem dims_kv (model : DenseModel) :
    model.dims.attentionHeadCountKv = model.config.attentionHeadCountKv := by
  obtain ⟨-, vocab, -, hdims⟩ := DenseLlamaDims.fromConfig_eq_ok.mp model.dims_eq
  rw [hdims]

/-- Query heads are shared out evenly over the key/value heads. -/
theorem kvHead_lt (model : DenseModel) {head : Nat} (h : head < model.config.attentionHeadCount) :
    0 < model.config.attentionHeadCount / model.dims.attentionHeadCountKv ∧
      head / (model.config.attentionHeadCount / model.dims.attentionHeadCountKv) <
        model.dims.attentionHeadCountKv := by
  have hdense := model.dense
  rw [model.dims_kv]
  obtain ⟨repeats, hrepeats⟩ := hdense.kv_dvd
  have hkv := hdense.kv_pos
  have hquot : model.config.attentionHeadCount / model.config.attentionHeadCountKv = repeats := by
    rw [hrepeats, Nat.mul_div_cancel_left _ hkv]
  rw [hquot]
  have hpos : 0 < repeats := by
    rcases Nat.eq_zero_or_pos repeats with rfl | hpos
    · have := hdense.heads_pos
      omega
    · exact hpos
  exact ⟨hpos, Nat.div_lt_of_lt_mul (by rw [Nat.mul_comm, ← hrepeats]; exact h)⟩

/-- Attention over the cache is attention over the rows it holds. -/
theorem attentionContext_eq {kv : LlamaKvCache} (hplan : kv.plan = model.plan)
    {layerIdx position : Nat} {history : List HeadRows} (hholds : kv.Holds layerIdx history)
    (hlen : history.length = position + 1) (q : List F32) :
    attentionContext q kv layerIdx position model.dims.headDim model.dims.attentionHeadCountKv
      model.config.attentionHeadCount = model.decoder.attend q history := by
  have hkv : model.dims.attentionHeadCountKv ≠ 0 := by
    have := model.dense.kv_pos
    rw [model.dims_kv]
    omega
  have hdim : kv.plan.headDim = model.dims.headDim := by rw [hplan]; rfl
  have hcount : kv.plan.kvHeadCount = model.dims.attentionHeadCountKv := by rw [hplan]; rfl
  unfold attentionContext plainDiv Decoder.attend
  rw [if_neg hkv, Outcome.ok_bind]
  show _ = (do
    let heads ← (List.range model.config.attentionHeadCount).mapM fun head => do
      let qHead ← Outcome.orPanic (Rows.row q model.dims.headDim head)
      attendHead model.dims.headDim qHead
        (head / (model.config.attentionHeadCount / model.dims.attentionHeadCountKv)) history
    .ok heads.flatten)
  congr 1
  apply Outcome.mapM_congr
  intro head hhead
  obtain ⟨hpos, hlt⟩ := model.kvHead_lt (List.mem_range.mp hhead)
  rw [if_neg (by omega), Outcome.ok_bind]
  congr 1
  funext qHead
  rw [← hdim]
  exact attentionHead_eq hholds hlen (by rw [hcount]; exact hlt) qHead

/-- Storing the rows of these heads leaves them, rounded, in the cache. -/
theorem storeHeads_run {kv : LlamaKvCache} (hfits : kv.Fits) (hplan : kv.plan = model.plan)
    {layerIdx position : Nat} (hlayer : layerIdx < kv.plan.layerCount)
    (hposition : position < kv.allocatedSequenceLength) (k v : List F32) (heads : List Nat)
    (hheads : ∀ kvHead ∈ heads, kvHead < kv.plan.kvHeadCount) :
    ∃ kv', Effect.each (fun kvHead => do
        let row ← .lift (model.decoder.headRow k v kvHead)
        LlamaKvCache.storeKvHeadRow layerIdx position kvHead row.1 row.2) heads kv =
        ((model.decoder.leave k v heads).map fun _ => (), kv') ∧
      kv.Unchanged kv' (fun layer p => layer = layerIdx ∧ p = position) ∧
      (∀ kvHead < kv.plan.kvHeadCount, kvHead ∉ heads →
        kv'.entry layerIdx position kvHead = kv.entry layerIdx position kvHead) ∧
      ∀ rows, model.decoder.leave k v heads = .ok rows → ∀ kvHead ∈ heads, ∀ row,
        model.decoder.headRow k v kvHead = .ok row →
        kv'.entry layerIdx position kvHead = some (roundRow row) := by
  induction heads generalizing kv with
  | nil =>
    exact ⟨kv, rfl, .refl hfits, fun _ _ _ => rfl, fun _ _ _ h => absurd h (by simp)⟩
  | cons head heads ih =>
    obtain ⟨hhead, hheads⟩ := List.forall_mem_cons.mp hheads
    unfold Decoder.leave
    rw [Outcome.mapM_cons, Effect.each, Effect.run_bind, Effect.run_bind, Effect.run_lift]
    rcases hrow : model.decoder.headRow k v head with row | e | fault
    · -- the row is stored, and the rest runs on
      have hwide : kv.Wide row := by
        obtain ⟨key, hkey, hrow⟩ := Outcome.bind_eq_ok.mp hrow
        obtain ⟨value, hvalue, hrow⟩ := Outcome.bind_eq_ok.mp hrow
        obtain rfl := Outcome.ok.inj hrow
        rw [LlamaKvCache.Wide, hplan]
        exact ⟨Rows.length_of_slice (Outcome.orPanic_eq_ok.mp hkey),
          Rows.length_of_slice (Outcome.orPanic_eq_ok.mp hvalue)⟩
      have hstored : kv.Unchanged (kv.stored layerIdx position head row)
          (fun layer p => layer = layerIdx ∧ p = position) := by
        refine ⟨LlamaKvCache.Fits.stored hlayer hposition hhead hwide hfits, rfl, rfl, rfl, ?_⟩
        intro layer hlayer' p kvHead hhead' hnot
        refine LlamaKvCache.entry_stored_of_ne hfits.buffered hlayer hposition hhead hwide hlayer' hhead' ?_
        intro heq
        obtain ⟨hl, hp⟩ := Prod.mk.inj heq
        exact hnot ⟨hl, (Prod.mk.inj hp).1⟩
      dsimp only
      rw [LlamaKvCache.storeKvHeadRow_eq hfits.buffered hlayer hposition hhead hwide]
      obtain ⟨kv', hrun, hunchanged, hothers, hentries⟩ :=
        ih hstored.fits hplan hlayer hposition hheads
      refine ⟨kv', ?_, hstored.trans hunchanged, ?_, ?_⟩
      · dsimp only
        rw [hrun]
        unfold Decoder.leave
        rw [Outcome.ok_bind, Outcome.ok_bind]
        rcases heads.mapM fun kvHead => (do
          let row ← model.decoder.headRow k v kvHead
          .ok (roundRow row) : EngineResult _) with rows | e | fault
        · rfl
        · rfl
        · rfl
      · intro kvHead hlt hnot
        rw [hothers kvHead hlt fun h => hnot (List.mem_cons_of_mem _ h)]
        refine LlamaKvCache.entry_stored_of_ne hfits.buffered hlayer hposition hhead hwide hlayer hlt ?_
        intro heq
        have hsame : kvHead = head := (Prod.mk.inj (Prod.mk.inj heq).2).2
        exact hnot (by rw [hsame]; exact List.mem_cons_self)
      · intro rows hrows kvHead hmem row' hrow'
        rw [Outcome.ok_bind, Outcome.ok_bind] at hrows
        obtain ⟨rest, hrest, -⟩ := Outcome.bind_eq_ok.mp hrows
        by_cases hin : kvHead ∈ heads
        · exact hentries rest hrest kvHead hin row' hrow'
        · obtain rfl : kvHead = head := by
            rcases List.mem_cons.mp hmem with h | h
            · exact h
            · exact absurd h hin
          rw [hothers kvHead hhead hin, LlamaKvCache.entry_stored_self hfits.buffered hlayer hposition hhead
            hwide]
          obtain rfl := Outcome.ok.inj (hrow.symm.trans hrow')
          rfl
    · exact ⟨kv, rfl, .refl hfits, fun _ _ _ => rfl, fun rows hrows => absurd hrows (by simp)⟩
    · exact ⟨kv, rfl, .refl hfits, fun _ _ _ => rfl, fun rows hrows => absurd hrows (by simp)⟩

/-- One layer over the cache is the causal layer over the rows it holds, and the
cache holds one position more of them afterwards. -/
theorem forwardLayer_run {kv : LlamaKvCache} (hfits : kv.Fits) (hplan : kv.plan = model.plan)
    {layerIdx position : Nat} (hlayer : layerIdx < kv.plan.layerCount)
    (hposition : position < kv.allocatedSequenceLength) {history : List HeadRows}
    (hholds : kv.Holds layerIdx history) (hlen : history.length = position) (hidden : CpuTensor)
    (layer : LlamaLayerWeights) :
    ∃ kv', model.decoder.forwardLayer hidden layer layerIdx position kv =
        (((model.decoder.causalLayer layer).next history hidden).map Prod.fst, kv') ∧
      kv.Unchanged kv' (fun l p => l = layerIdx ∧ p = position) ∧
      ∀ out, (model.decoder.causalLayer layer).next history hidden = .ok out →
        kv'.Holds layerIdx (history ++ [out.2]) := by
  subst hlen
  have hcount : kv.plan.kvHeadCount = model.dims.attentionHeadCountKv := by rw [hplan]; rfl
  unfold Decoder.forwardLayer CausalLayer.next Decoder.causalLayer
  dsimp only
  rw [Effect.run_bind, Effect.run_lift]
  rcases hproject : model.decoder.project layer history.length hidden with ⟨q, k, v⟩ | e | fault
  · obtain ⟨kv', hstore, hunchanged, -, hentries⟩ :=
      storeHeads_run hfits hplan hlayer hposition k v
        (List.range model.dims.attentionHeadCountKv)
        (fun kvHead h => by rw [hcount]; exact List.mem_range.mp h)
    dsimp only
    rw [Effect.run_bind]
    have hstore' : model.decoder.storeRows layerIdx history.length k v kv =
        ((model.decoder.leave k v (List.range model.dims.attentionHeadCountKv)).map fun _ => (),
          kv') := hstore
    rw [hstore', Outcome.ok_bind]
    have hheads : model.decoder.dims.attentionHeadCountKv = model.dims.attentionHeadCountKv := rfl
    rw [hheads]
    rcases hleave : model.decoder.leave k v (List.range model.dims.attentionHeadCountKv) with
      rows | e | fault
    · -- every head has left its row
      have hrows : rows.length = kv'.plan.kvHeadCount := by
        rw [Outcome.length_of_mapM hleave, List.length_range, hunchanged.plan_eq, hcount]
      have hrow : ∀ kvHead < kv'.plan.kvHeadCount,
          kv'.entry layerIdx history.length kvHead = rows[kvHead]? := by
        intro kvHead hlt
        rw [hunchanged.plan_eq, hcount] at hlt
        have hall := List.forall₂_iff_get.mp (Outcome.mapM_eq_ok.mp hleave)
        have hget := hall.2 kvHead (by simpa using hlt) (by rw [hrows, hunchanged.plan_eq, hcount]; exact hlt)
        rw [List.get_eq_getElem, List.getElem_range] at hget
        obtain ⟨row, hheadRow, hround⟩ := Outcome.bind_eq_ok.mp hget
        rw [hentries rows hleave kvHead (List.mem_range.mpr hlt) row hheadRow,
          Outcome.ok.inj hround, List.get_eq_getElem, ← List.getElem?_eq_getElem]
      have hheld : kv'.Holds layerIdx (history ++ [rows]) := by
        refine LlamaKvCache.Holds.snoc ?_ hrows hrow
        refine hunchanged.holds hlayer ?_ hholds
        intro p hp htouched
        omega
      have hplan' : kv'.plan = model.plan := by rw [hunchanged.plan_eq, hplan]
      have hcontext := attentionContext_eq hplan' hheld
        (by simp : (history ++ [rows]).length = history.length + 1) q
      refine ⟨kv', ?_, hunchanged, ?_⟩
      · have hcontext' : attentionContext q kv' layerIdx history.length model.decoder.dims.headDim
            model.dims.attentionHeadCountKv model.decoder.attentionHeadCount =
            model.decoder.attend q (history ++ [rows]) := hcontext
        rw [Outcome.map_ok, Outcome.ok_bind]
        dsimp only
        rw [Effect.get_bind, Effect.run_bind, Effect.run_lift, hcontext', Outcome.ok_bind]
        rcases model.decoder.attend q (history ++ [rows]) with context | e | fault
        · rw [Outcome.ok_bind]
          dsimp only
          rw [Effect.run_lift]
          rcases model.decoder.finish layer hidden context with output | e | fault
          · rfl
          · rfl
          · rfl
        · rfl
        · rfl
      · intro out hout
        obtain ⟨projected, hprojected, hout⟩ := Outcome.bind_eq_ok.mp hout
        obtain ⟨output, -, hout⟩ := Outcome.bind_eq_ok.mp hout
        obtain rfl := Outcome.ok.inj hout
        obtain rfl := Outcome.ok.inj hprojected
        exact hheld
    · exact ⟨kv', rfl, hunchanged, fun out hout => absurd hout (by simp)⟩
    · exact ⟨kv', rfl, hunchanged, fun out hout => absurd hout (by simp)⟩
  · exact ⟨kv, rfl, .refl hfits, fun out hout => absurd hout (by simp)⟩
  · exact ⟨kv, rfl, .refl hfits, fun out hout => absurd hout (by simp)⟩

end DenseModel

end CamelidEnterprise

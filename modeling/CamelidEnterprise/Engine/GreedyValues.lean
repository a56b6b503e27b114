import CamelidEnterprise.Engine.GenerationEnds
import CamelidEnterprise.Engine.GenerationStops

/-!
# Camelid Enterprise — the values a generation rests on

A served model can still stop in the middle of a generation, where a value is not a number:
an attention has no finite sum, or a logit is not finite. Both are reported as a shape
error. `GreedyFinite` says of a prompt that this does not happen, in terms of the decoder
that computes every layer for the whole sequence at once (`referenceLogits`); no cache and
no loop of the runtime occurs in it.

* `referenceHiddens_snoc` — what the whole-sequence decoder returns on, it returns on the
  shorter sequence.
* `Prefilled.forward_cases` — a pass returns where the whole-sequence decoder does, and
  ends in an attention's error elsewhere.
* `stops_shape_iff` — the path of a generation stops with a shape error just where the
  prompt is not `GreedyFinite`.
-/

namespace CamelidEnterprise

open Foundation

variable [FloatOps]

namespace DenseModel

variable {model : DenseModel}

-- ---------------------------------------------------------------------------
-- The whole-sequence decoder
-- ---------------------------------------------------------------------------

/-- With so many tokens to come after these, the values the greedy choice rests on are
numbers: the whole-sequence decoder returns logits for the last token, all finite, and so
on with the token they choose, unless that one ends the generation. -/
def GreedyFinite (model : DenseModel) (isEog : TokenId → Bool) : Nat → List TokenId → Prop
  | 0, _ => True
  | left + 1, tokens => ∃ logits,
      model.referenceLogits tokens (tokens.length - 1) = .ok logits ∧
      (∀ value ∈ logits.data, value.isFinite = true) ∧
      (isEog (argmaxIdx logits.data) = false →
        model.GreedyFinite isEog left (tokens ++ [argmaxIdx logits.data]))

theorem referenceHiddens_snoc {tokens : List TokenId} {token : TokenId} {longer : List CpuTensor}
    (h : model.referenceHiddens (tokens ++ [token]) = .ok longer) :
    ∃ outputs, model.referenceHiddens tokens = .ok outputs := by
  obtain ⟨embedded, hembedded, h⟩ := Outcome.bind_eq_ok.mp h
  rw [Outcome.mapM_append] at hembedded
  obtain ⟨before, hbefore, hembedded⟩ := Outcome.bind_eq_ok.mp hembedded
  obtain ⟨last, hlast, hembedded⟩ := Outcome.bind_eq_ok.mp hembedded
  obtain rfl := Outcome.ok.inj hembedded
  obtain ⟨hidden, rfl⟩ := List.length_eq_one_iff.mp (Outcome.length_of_mapM hlast)
  obtain ⟨outputs, houtputs⟩ := CausalLayer.wholeStack_of_snoc h
  refine ⟨outputs, ?_⟩
  unfold referenceHiddens
  rw [hbefore, Outcome.ok_bind, houtputs]

theorem referenceHiddens_append {tokens more : List TokenId} {longer : List CpuTensor}
    (h : model.referenceHiddens (tokens ++ more) = .ok longer) :
    ∃ outputs, model.referenceHiddens tokens = .ok outputs := by
  induction more using List.reverseRecOn generalizing longer with
  | nil => exact ⟨longer, by rwa [List.append_nil] at h⟩
  | append_singleton more token ih =>
    rw [← List.append_assoc] at h
    obtain ⟨outputs, houtputs⟩ := referenceHiddens_snoc h
    exact ih houtputs

/-- The logits of a token list are those of the last hidden state. -/
theorem referenceLogits_eq {tokens : List TokenId} {outputs : List CpuTensor} {p : Nat}
    {output : CpuTensor} (h : model.referenceHiddens tokens = .ok outputs)
    (houtput : outputs[p]? = some output) :
    model.referenceLogits tokens p = model.decoder.logits output := by
  unfold referenceLogits
  rw [h, Outcome.ok_bind, houtput]
  rfl

-- ---------------------------------------------------------------------------
-- One pass
-- ---------------------------------------------------------------------------

variable {kv : LlamaKvCache} {tokens : List TokenId} {outputs : List CpuTensor} {token : TokenId}

/-- On rows of every head, only an attention fails, and the answer never does. -/
theorem step_ok (hsound : model.Sound) (hserved : model.Served) {histories : List (List HeadRows)}
    (hwide : ∀ history ∈ histories, ∀ heads ∈ history, model.RowsWide heads)
    {hidden : CpuTensor} (hembed : model.decoder.embed token = .ok hidden)
    {out : CpuTensor × List HeadRows}
    (hstack : CausalLayer.nextStack model.decoder.causalLayers histories hidden = .ok out)
    (computeLogits : Bool) :
    ∃ answer, model.decoder.step histories token computeLogits = .ok (answer, out.2) := by
  have hplain : hidden.Plain [1, model.dims.embeddingLength] := by
    have hends : (model.decoder.embed token).Ends (fun _ => False)
        (·.Plain [1, model.dims.embeddingLength]) :=
      embed_ends hsound fun h => absurd ⟨hidden, hembed⟩ h
    rwa [hembed] at hends
  have hrow : out.1.Plain [1, model.dims.embeddingLength] := by
    have hends : (CausalLayer.nextStack model.decoder.causalLayers histories hidden).Ends
        (softmaxError = ·) (·.1.Plain [1, model.dims.embeddingLength]) :=
      nextStack_ends hsound.words hsound.table rfl hsound.layers
        (fun h => absurd ⟨hserved.layers, hserved.rotates⟩ h) hwide hplain
    rwa [hstack] at hends
  have hanswer : (model.decoder.answer out.1 computeLogits).Ends (fun _ => False) _ :=
    answer_ends hsound (fun h => absurd hserved.output h) hrow computeLogits
  unfold Decoder.step
  rw [hembed, Outcome.ok_bind, hstack, Outcome.ok_bind]
  rcases h : model.decoder.answer out.1 computeLogits with answer | e | k
  · exact ⟨answer, rfl⟩
  · rw [h] at hanswer
    exact hanswer.elim
  · rw [h] at hanswer
    exact hanswer.elim

variable (hsound : model.Sound) (hserved : model.Served) (hnarrow : model.config.Narrow)
  (hfits : model.CacheFits)

include hsound hserved hnarrow hfits

/-- A pass returns where the whole-sequence decoder does, on the tokens up to its own;
elsewhere it ends in the error of an attention. -/
theorem Prefilled.forward_cases (h : model.Prefilled tokens kv outputs)
    (htoken : token < model.dims.vocabSize) (hfree : kv.position < model.config.contextLength)
    (computeLogits : Bool) :
    (∃ answer kv' output,
      model.forwardPass.forwardToken token computeLogits kv = (.ok answer, kv') ∧
      model.Prefilled (tokens ++ [token]) kv' (outputs ++ [output]) ∧
      model.decoder.answer output computeLogits = .ok answer ∧
      ∀ logits, answer = some logits → logits.Plain [1, model.dims.vocabSize]) ∨
    (model.forwardPass.forwardToken token computeLogits kv).1 = .err softmaxError ∧
      ∀ longer, model.referenceHiddens (tokens ++ [token]) ≠ .ok longer := by
  obtain ⟨embedded, histories, hembedded, hfilled, hrep⟩ := h.filled
  have hroom : ∀ allowed : EngineError → Prop, (model.room kv).Ends allowed fun _ => True :=
    fun allowed => room_ends hnarrow hrep.plan_eq hfits hfree
  have hends :
      (model.forwardPass.forwardToken token computeLogits kv).1.Ends (softmaxError = ·) _ :=
    forwardToken_ends hrep hsound rfl (fun h => absurd ⟨htoken, hserved⟩ h) (hroom _) computeLogits
  rcases hpass : model.forwardPass.forwardToken token computeLogits kv with ⟨answer | e | k, kv'⟩
  · rw [hpass] at hends
    let call : ForwardCall := ⟨token, computeLogits⟩
    have hcall : model.forwardPass.forwardToken call.token call.computeLogits kv =
        (.ok answer, kv') := hpass
    obtain ⟨output, hprefilled, hanswer⟩ := h.snoc hcall
    exact .inl ⟨answer, kv', output, rfl, hprefilled, hanswer, hends⟩
  · rw [hpass] at hends
    obtain rfl : softmaxError = e := hends
    refine .inr ⟨rfl, fun longer hlonger => ?_⟩
    -- the token goes through the rows that are kept, so the pass returns
    obtain ⟨embedded', hembedded', hlonger⟩ := Outcome.bind_eq_ok.mp hlonger
    rw [Outcome.mapM_append, hembedded, Outcome.ok_bind, Outcome.mapM_cons] at hembedded'
    obtain ⟨last, hlast, hembedded'⟩ := Outcome.bind_eq_ok.mp hembedded'
    obtain ⟨hidden, hhidden, hlast⟩ := Outcome.bind_eq_ok.mp hlast
    obtain rfl := Outcome.ok.inj hlast
    obtain rfl := Outcome.ok.inj hembedded'
    obtain ⟨out, hout⟩ := hfilled.next_of_whole hlonger
    obtain ⟨answer, hstep⟩ := step_ok hsound hserved hrep.wide hhidden hout computeLogits
    obtain ⟨kv₁, hrun, -, -⟩ := forwardToken_run hrep token computeLogits
    have hturn : model.turn kv histories token computeLogits = .ok (answer, out.2) := by
      have hgrown := hroom fun _ => False
      unfold turn
      rcases htarget : model.room kv with target | e | k
      · rw [Outcome.ok_bind, hstep]
      · rw [htarget] at hgrown
        exact hgrown.elim
      · rw [htarget] at hgrown
        exact hgrown.elim
    rw [hturn, hpass] at hrun
    cases (Prod.mk.inj hrun).1
  · rw [hpass] at hends
    exact hends.elim

/-- A pass with logits: those of the whole-sequence decoder. -/
theorem Prefilled.forwardLogits_cases (h : model.Prefilled tokens kv outputs)
    (htoken : token < model.dims.vocabSize) (hfree : kv.position < model.config.contextLength) :
    (∃ logits kv' outputs', model.forwardPass.forwardLogits token kv = (.ok logits, kv') ∧
      model.Prefilled (tokens ++ [token]) kv' outputs' ∧
      model.referenceLogits (tokens ++ [token]) tokens.length = .ok logits ∧
      logits.Plain [1, model.dims.vocabSize]) ∨
    (model.forwardPass.forwardLogits token kv).1 = .err softmaxError ∧
      ∀ logits, model.referenceLogits (tokens ++ [token]) tokens.length ≠ .ok logits := by
  unfold ForwardPass.forwardLogits
  rcases h.forward_cases hsound hserved hnarrow hfits htoken hfree true with
    ⟨answer, kv', output, hpass, hprefilled, hanswer, hplain⟩ | ⟨hpass, hfails⟩
  · rw [Effect.run_bind, hpass]
    rw [Decoder.answer, if_pos rfl] at hanswer
    obtain ⟨logits, hlogits, hanswer⟩ := Outcome.bind_eq_ok.mp hanswer
    obtain rfl := Outcome.ok.inj hanswer
    refine .inl ⟨logits, kv', _, rfl, hprefilled, ?_, hplain logits rfl⟩
    have hlast : (outputs ++ [output])[tokens.length]? = some output := by
      rw [← h.length_eq, List.getElem?_append_right (Nat.le_refl _), Nat.sub_self]
      rfl
    rw [referenceLogits_eq hprefilled.referenceHiddens_eq hlast, hlogits]
  · refine .inr ⟨?_, fun logits hlogits => ?_⟩
    · exact Effect.bind_err hpass
    · obtain ⟨longer, hlonger, -⟩ := Outcome.bind_eq_ok.mp hlogits
      exact hfails longer hlonger

/-- The passes over the tokens that go before. By induction on them. -/
theorem Prefilled.prefill_cases {more : List TokenId} (h : model.Prefilled tokens kv outputs)
    (hposition : kv.position = tokens.length) (hmore : ∀ token ∈ more, token < model.dims.vocabSize)
    (hroom : tokens.length + more.length ≤ model.config.contextLength) :
    (∃ kv' outputs', model.forwardPass.prefill more kv = (.ok (), kv') ∧
      model.Prefilled (tokens ++ more) kv' outputs' ∧
      kv'.position = tokens.length + more.length) ∨
    (model.forwardPass.prefill more kv).1 = .err softmaxError ∧
      ∀ longer, model.referenceHiddens (tokens ++ more) ≠ .ok longer := by
  induction more generalizing tokens kv outputs with
  | nil => exact .inl ⟨kv, outputs, rfl, by rwa [List.append_nil], hposition⟩
  | cons token more ih =>
    rw [List.length_cons] at hroom
    rw [ForwardPass.prefill, List.append_cons]
    rcases h.forward_cases hsound hserved hnarrow hfits (hmore token List.mem_cons_self)
      (by omega) false with ⟨answer, kv', output, hpass, hprefilled, -, -⟩ | ⟨hpass, hfails⟩
    · have hnext : kv'.position = kv.position + 1 := ForwardPass.forwardToken_position hpass
      have hlength : (tokens ++ [token]).length = tokens.length + 1 := List.length_append
      rw [Effect.run_bind, hpass]
      have hrest := ih hprefilled (by omega)
        (fun other hother => hmore other (List.mem_cons_of_mem _ hother)) (by omega)
      rwa [hlength, Nat.add_assoc, Nat.add_comm 1, ← List.length_cons] at hrest
    · refine .inr ⟨?_, fun longer hlonger => ?_⟩
      · exact Effect.bind_err hpass
      · obtain ⟨shorter, hshorter⟩ := referenceHiddens_append hlonger
        exact hfails shorter hshorter

/-- The passes over a prompt. -/
theorem Fresh.prime_cases (h : model.Fresh kv) {prompt : List TokenId} {last : TokenId}
    (hlast : prompt.getLast? = some last) (hprompt : ∀ token ∈ prompt, token < model.dims.vocabSize)
    (hroom : prompt.length ≤ model.config.contextLength) :
    (∃ logits kv' outputs', model.forwardPass.prime prompt last kv = (.ok logits, kv') ∧
      model.Prefilled prompt kv' outputs' ∧ kv'.position = prompt.length ∧
      model.referenceLogits prompt (prompt.length - 1) = .ok logits ∧
      logits.Plain [1, model.dims.vocabSize]) ∨
    (model.forwardPass.prime prompt last kv).1 = .err softmaxError ∧
      ∀ logits, model.referenceLogits prompt (prompt.length - 1) ≠ .ok logits := by
  obtain ⟨before, rfl⟩ := List.getLast?_eq_some_iff.mp hlast
  have hlength : (before ++ [last]).length = before.length + 1 := List.length_append
  rw [hlength] at hroom ⊢
  rw [Nat.add_sub_cancel]
  unfold ForwardPass.prime
  rw [List.dropLast_concat]
  have hbefore : ∀ token ∈ before, token < model.dims.vocabSize :=
    fun token htoken => hprompt token (List.mem_append_left _ htoken)
  rcases h.prefilled.prefill_cases hsound hserved hnarrow hfits h.position_eq hbefore
    (by rw [List.length_nil]; omega) with ⟨kv', outputs', hpass, hprefilled, hposition⟩ |
      ⟨hpass, hfails⟩
  · rw [Effect.run_bind, hpass]
    rw [List.length_nil, Nat.zero_add] at hposition
    rw [List.nil_append] at hprefilled
    rcases hprefilled.forwardLogits_cases hsound hserved hnarrow hfits
      (hprompt last (List.mem_append_right _ (List.mem_singleton_self last))) (by omega) with
        ⟨logits, kv₁, outputs₁, hlogits, hprefilled', hreference, hplain⟩ | hfailed
    · have hnext : kv₁.position = kv'.position + 1 :=
        ForwardPass.forwardToken_position (ForwardPass.forwardLogits_eq_ok hlogits)
      exact .inl ⟨logits, kv₁, outputs₁, hlogits, hprefilled', by omega, hreference, hplain⟩
    · exact .inr hfailed
  · refine .inr ⟨?_, fun logits hlogits => ?_⟩
    · exact Effect.bind_err hpass
    · obtain ⟨longer, hlonger, -⟩ := Outcome.bind_eq_ok.mp hlogits
      rw [List.nil_append] at hfails
      obtain ⟨shorter, hshorter⟩ := referenceHiddens_snoc hlonger
      exact hfails shorter hshorter

end DenseModel

-- ---------------------------------------------------------------------------
-- The path
-- ---------------------------------------------------------------------------

omit [FloatOps] in
/-- A row of finite logits has a greatest one; another row is refused as a wrong shape. -/
theorem argmax_cases {logits : CpuTensor} {vocab : Nat} (hlogits : logits.Plain [1, vocab])
    (hpos : 0 < vocab) (hword : vocab < 2 ^ 32) :
    (∀ value ∈ logits.data, value.isFinite = true) ∧
        argmax logits = .ok (argmaxIdx logits.data) ∧ argmaxIdx logits.data < vocab ∨
      ¬(∀ value ∈ logits.data, value.isFinite = true) ∧
        ∃ message, argmax logits = .err (.ShapeMismatch message) := by
  have hlength := hlogits.row_length
  have hne : logits.data ≠ [] := by
    intro hempty
    rw [hempty, List.length_nil] at hlength
    omega
  have hlt := argmaxIdx_lt hne
  rw [hlength] at hlt
  unfold argmax
  rw [if_neg (by rw [hlogits.dims_eq]; simp), if_neg hne]
  rcases hfound : logits.data.findIdx? fun value => !value.isFinite with _ | idx
  · refine .inl ⟨fun value hvalue => ?_, ?_, hlt⟩
    · simpa using List.findIdx?_eq_none_iff.mp hfound value hvalue
    · rw [hfound]
      dsimp only
      rw [if_pos (by omega)]
  · refine .inr ⟨fun hfinite => ?_, _, by rw [hfound]⟩
    obtain ⟨hidx, hinfinite, -⟩ := List.findIdx?_eq_some_iff_getElem.mp hfound
    rw [hfinite _ (List.getElem_mem hidx)] at hinfinite
    cases hinfinite

namespace DenseModel

variable {model : DenseModel} {kv : LlamaKvCache} {tokens : List TokenId}
  {outputs : List CpuTensor} {isEog : TokenId → Bool}

/-- With the logits at hand, what is left to ask is that they are finite, and the rest. -/
theorem greedyFinite_succ {left : Nat} {logits : CpuTensor}
    (h : model.referenceLogits tokens (tokens.length - 1) = .ok logits) :
    model.GreedyFinite isEog (left + 1) tokens ↔
      (∀ value ∈ logits.data, value.isFinite = true) ∧
      (isEog (argmaxIdx logits.data) = false →
        model.GreedyFinite isEog left (tokens ++ [argmaxIdx logits.data])) := by
  rw [GreedyFinite]
  constructor
  · rintro ⟨logits', h', hrest⟩
    obtain rfl := Outcome.ok.inj (h.symm.trans h')
    exact hrest
  · exact fun hrest => ⟨logits, h, hrest⟩

/-- Without logits there is no next token. -/
theorem not_greedyFinite {left : Nat} (hleft : left ≠ 0)
    (h : ∀ logits, model.referenceLogits tokens (tokens.length - 1) ≠ .ok logits) :
    ¬model.GreedyFinite isEog left tokens := by
  obtain ⟨left, rfl⟩ := Nat.exists_eq_succ_of_ne_zero hleft
  rintro ⟨logits, hlogits, -⟩
  exact h logits hlogits

variable (hsound : model.Sound) (hserved : model.Served) (hnarrow : model.config.Narrow)
  (hfits : model.CacheFits)

include hsound hserved hnarrow hfits

/-- The loop stops with a shape error just where the values are no numbers. By induction on
the tokens left. -/
theorem stopsIn_shape_iff {left : Nat} {logits : CpuTensor} (h : model.Prefilled tokens kv outputs)
    (hposition : kv.position = tokens.length)
    (hlogits : model.referenceLogits tokens (tokens.length - 1) = .ok logits)
    (hplain : logits.Plain [1, model.dims.vocabSize])
    (hroom : tokens.length + left ≤ model.config.contextLength) :
    (∃ message, model.forwardPass.StopsIn isEog (.inl (.ShapeMismatch message)) left logits kv) ↔
      ¬model.GreedyFinite isEog left tokens := by
  obtain ⟨-, vocab, hvocab, hdims⟩ := DenseLlamaDims.fromConfig_eq_ok.mp model.dims_eq
  have hword : model.dims.vocabSize < 2 ^ 32 := by
    rw [hdims]
    exact hnarrow.vocab vocab hvocab
  induction left generalizing tokens kv outputs logits with
  | zero =>
    refine ⟨?_, fun h => absurd trivial h⟩
    rintro ⟨message, hstops⟩
    cases hstops
  | succ left ih =>
    rw [greedyFinite_succ hlogits]
    rcases argmax_cases hplain model.vocab_pos hword with ⟨hfinite, hnext, hlt⟩ |
      ⟨hinfinite, message, hrefused⟩
    case inr =>
      refine ⟨fun _ hrest => hinfinite hrest.1, fun _ => ⟨message, .argmax ?_⟩⟩
      rw [show model.forwardPass.argmax logits = _ from hrefused]
      rfl
    replace hnext : model.forwardPass.argmax logits = .ok (argmaxIdx logits.data) := hnext
    generalize argmaxIdx logits.data = token at hnext hlt ⊢
    -- whatever stops, stops after this token
    have hlater : ∀ {stop}, model.forwardPass.StopsIn isEog stop (left + 1) logits kv →
        isEog token = false ∧ left ≠ 0 ∧
          ((model.forwardPass.forwardLogits token kv).1.failure = some stop ∨
            ∃ logits' kv', model.forwardPass.forwardLogits token kv = (.ok logits', kv') ∧
              model.forwardPass.StopsIn isEog stop left logits' kv') := by
      intro stop hstops
      cases hstops with
      | argmax hargmax =>
        rw [hnext] at hargmax
        cases hargmax
      | forward hnext' hgoes hleft hfailed =>
        obtain rfl := Outcome.ok.inj (hnext.symm.trans hnext')
        exact ⟨hgoes, hleft, .inl hfailed⟩
      | later hnext' hgoes hforward hrest =>
        obtain rfl := Outcome.ok.inj (hnext.symm.trans hnext')
        refine ⟨hgoes, ?_, .inr ⟨_, _, hforward, hrest⟩⟩
        rintro rfl
        cases hrest
    by_cases hends : isEog token = false ∧ left ≠ 0
    case neg =>
      constructor
      · rintro ⟨message, hstops⟩
        obtain ⟨hgoes, hleft, -⟩ := hlater hstops
        exact absurd ⟨hgoes, hleft⟩ hends
      · refine fun hrest => absurd ⟨hfinite, fun hgoes => ?_⟩ hrest
        obtain rfl : left = 0 := by
          by_contra hleft
          exact hends ⟨hgoes, hleft⟩
        trivial
    obtain ⟨hgoes, hleft⟩ := hends
    have hlength : (tokens ++ [token]).length = tokens.length + 1 := List.length_append
    rcases h.forwardLogits_cases hsound hserved hnarrow hfits hlt (by omega) with
      ⟨logits', kv', outputs', hforward, hprefilled, hreference, hplain'⟩ | ⟨hfailed, hfails⟩
    · have hnextPosition : kv'.position = kv.position + 1 :=
        ForwardPass.forwardToken_position (ForwardPass.forwardLogits_eq_ok hforward)
      have hrest := ih hprefilled (by omega) (by rw [hlength]; exact hreference) hplain'
        (by omega)
      constructor
      · rintro ⟨message, hstops⟩ hvalues
        rcases (hlater hstops).2.2 with hfailed | ⟨logits₁, kv₁, hforward', hstops'⟩
        · rw [hforward] at hfailed
          cases hfailed
        · obtain ⟨hsame, rfl⟩ := Prod.mk.inj (hforward.symm.trans hforward')
          obtain rfl := Outcome.ok.inj hsame
          exact hrest.mp ⟨message, hstops'⟩ (hvalues.2 hgoes)
      · intro hvalues
        obtain ⟨message, hstops⟩ := hrest.mpr fun hvalues' => hvalues ⟨hfinite, fun _ => hvalues'⟩
        exact ⟨message, .later hnext hgoes hforward hstops⟩
    · constructor
      · rintro - hvalues
        exact not_greedyFinite hleft (by rw [hlength]; exact hfails) (hvalues.2 hgoes)
      · intro _
        exact ⟨softmaxMessage, .forward hnext hgoes hleft (by rw [hfailed]; rfl)⟩

/-- **Where a generation stops with a shape error.** On a served model, the path of a
generation that fits comes to a shape error just where the prompt is not `GreedyFinite`. -/
theorem stops_shape_iff (tokenizer : Tokenizer) {prompt : List TokenId} {maxNew : Nat}
    (hlayers : 0 < model.dims.blockCount) (hwidth : 0 < model.dims.headDim) (hne : prompt ≠ [])
    (hprompt : ∀ token ∈ prompt, token < model.dims.vocabSize)
    (hroom : prompt.length + maxNew ≤ model.config.contextLength) :
    (∃ message, LoadedModel.GenerationStops ⟨tokenizer, model.forwardPass⟩ prompt maxNew
        (.inl (.ShapeMismatch message))) ↔
      ¬model.GreedyFinite (LoadedModel.isEog ⟨tokenizer, model.forwardPass⟩) maxNew prompt := by
  obtain ⟨kv, hnew⟩ := newCache_ok hlayers hwidth
  obtain ⟨last, hlast⟩ := Option.ne_none_iff_exists'.mp (mt List.getLast?_eq_none_iff.mp hne)
  have hnew' : model.forwardPass.new = .ok kv := hnew
  -- the path begins with this cache and this token
  have hpath : ∀ {stop}, LoadedModel.GenerationStops ⟨tokenizer, model.forwardPass⟩ prompt maxNew
      stop → maxNew ≠ 0 ∧ ((model.forwardPass.prime prompt last kv).1.failure = some stop ∨
        ∃ logits primed, model.forwardPass.prime prompt last kv = (.ok logits, primed) ∧
          model.forwardPass.StopsIn (LoadedModel.isEog ⟨tokenizer, model.forwardPass⟩) stop maxNew
            logits primed) := by
    intro stop hstops
    cases hstops with
    | new h =>
      rw [hnew'] at h
      cases h
    | prompt hnew₁ hbudget hlast₁ h =>
      obtain rfl := Outcome.ok.inj (hnew'.symm.trans hnew₁)
      obtain rfl := Option.some.inj (hlast.symm.trans hlast₁)
      exact ⟨hbudget, .inl h⟩
    | loop hnew₁ hbudget hlast₁ hprime h =>
      obtain rfl := Outcome.ok.inj (hnew'.symm.trans hnew₁)
      obtain rfl := Option.some.inj (hlast.symm.trans hlast₁)
      exact ⟨hbudget, .inr ⟨_, _, hprime, h⟩⟩
  by_cases hbudget : maxNew = 0
  · subst hbudget
    refine ⟨?_, fun h => absurd trivial h⟩
    rintro ⟨message, hstops⟩
    exact absurd rfl (hpath hstops).1
  rcases (newCache_fresh hnew).prime_cases hsound hserved hnarrow hfits hlast hprompt (by omega)
    with ⟨logits, primed, outputs, hprime, hprefilled, hposition, hlogits, hplain⟩ |
      ⟨hfailed, hfails⟩
  · rw [← stopsIn_shape_iff hsound hserved hnarrow hfits hprefilled hposition hlogits hplain hroom]
    constructor
    · rintro ⟨message, hstops⟩
      rcases (hpath hstops).2 with hfailed | ⟨logits₁, primed₁, hprime₁, h⟩
      · rw [hprime] at hfailed
        cases hfailed
      · obtain ⟨hsame, rfl⟩ := Prod.mk.inj (hprime.symm.trans hprime₁)
        obtain rfl := Outcome.ok.inj hsame
        exact ⟨message, h⟩
    · rintro ⟨message, h⟩
      exact ⟨message, .loop hnew' hbudget hlast hprime h⟩
  · refine ⟨fun _ => not_greedyFinite hbudget hfails, fun _ => ⟨softmaxMessage, ?_⟩⟩
    refine .prompt hnew' hbudget hlast ?_
    rw [show LoadedModel.pass ⟨tokenizer, model.forwardPass⟩ = model.forwardPass from rfl, hfailed]
    rfl

end DenseModel

end CamelidEnterprise

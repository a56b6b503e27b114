import CamelidEnterprise.Engine.Runtime

/-!
# Camelid Enterprise — blocking and incremental generation agree

`generate` and `generate_incremental` drive the same loop with different callbacks.
What a run that returns has emitted is described once, by `Emits`: the argmax of
each logits row in turn, each token but the last fed back. `decodeLoop_eq_ok` reads
a run off that description, whatever the callback; `decodeLoop_consumer` compares a
consumer's run with the run of one that never cancels; `decodeLoop_failure` says
where a run that fails failed.

Main result: `generate_incremental_agree`.
-/

namespace CamelidEnterprise

open Foundation Server

variable {δ Λ κ : Type}

-- ---------------------------------------------------------------------------
-- Forward passes
-- ---------------------------------------------------------------------------

namespace ForwardPass

variable {pass : ForwardPass δ Λ}

theorem forwardToken_position {token : TokenId} {computeLogits : Bool} {logits : Option Λ}
    {decoder decoder' : δ}
    (h : pass.forwardToken token computeLogits decoder = (.ok logits, decoder')) :
    pass.position decoder' = pass.position decoder + 1 := by
  unfold forwardToken at h
  split at h
  · exact pass.compute_position _ _ _ _ _ h
  · exact absurd (Prod.mk.inj h).1 (by simp)

theorem forwardLogits_eq_ok {token : TokenId} {logits : Λ} {decoder decoder' : δ}
    (h : pass.forwardLogits token decoder = (.ok logits, decoder')) :
    pass.forwardToken token true decoder = (.ok (some logits), decoder') := by
  obtain ⟨maybe, t, hforward, h⟩ := Effect.bind_eq_ok.mp h
  obtain ⟨hlogits, rfl⟩ := Prod.mk.inj h
  rw [hforward, Outcome.orPanic_eq_ok.mp hlogits]

theorem prefill_position {tokens : List TokenId} {decoder decoder' : δ}
    (h : pass.prefill tokens decoder = (.ok (), decoder')) :
    pass.position decoder' = pass.position decoder + tokens.length := by
  induction tokens generalizing decoder with
  | nil =>
    obtain ⟨-, rfl⟩ := Prod.mk.inj h
    rfl
  | cons token tokens ih =>
    obtain ⟨logits, next, hforward, h⟩ := Effect.bind_eq_ok.mp h
    rw [ih h, forwardToken_position hforward, List.length_cons]
    omega

-- ---------------------------------------------------------------------------
-- What a run emits
-- ---------------------------------------------------------------------------

/-- From these logits the tokens are emitted in turn: none but the last is a stop
token, and each but the last has been fed back. -/
inductive Emits (pass : ForwardPass δ Λ) (shouldStop : TokenId → Bool) :
    Λ → δ → List TokenId → δ → Prop
  | last {logits decoder token} (hnext : pass.argmax logits = .ok token) :
      Emits pass shouldStop logits decoder [token] decoder
  | more {logits decoder token logits' decoder' tokens final}
      (hnext : pass.argmax logits = .ok token) (hgoes : shouldStop token = false)
      (hforward : pass.forwardLogits token decoder = (.ok logits', decoder'))
      (hrest : Emits pass shouldStop logits' decoder' tokens final) :
      Emits pass shouldStop logits decoder (token :: tokens) final

/-- The callback answered `Continue` to all of these tokens but the last, and this
to the last. -/
inductive Answers (onToken : TokenId → Effect κ EngineError DecodeControl) :
    κ → List TokenId → κ → DecodeControl → Prop
  | last {captured token captured' control} (hcall : onToken token captured = (.ok control, captured')) :
      Answers onToken captured [token] captured' control
  | more {captured token captured' tokens final control}
      (hcall : onToken token captured = (.ok .Continue, captured'))
      (hrest : Answers onToken captured' tokens final control) :
      Answers onToken captured (token :: tokens) final control

theorem Emits.ne_nil {shouldStop : TokenId → Bool} {logits : Λ} {decoder final : δ}
    {tokens : List TokenId} (h : pass.Emits shouldStop logits decoder tokens final) :
    tokens ≠ [] := by
  cases h with
  | last => exact List.cons_ne_nil _ _
  | more => exact List.cons_ne_nil _ _

/-- What is emitted first does not depend on how much is emitted. -/
theorem Emits.take {shouldStop : TokenId → Bool} {logits : Λ} {decoder final : δ}
    {tokens : List TokenId} (h : pass.Emits shouldStop logits decoder tokens final) {n : Nat}
    (hpos : 0 < n) (hn : n < tokens.length) :
    ∃ final', pass.Emits shouldStop logits decoder (tokens.take n) final' ∧
      (tokens.take n).getLast?.any shouldStop = false := by
  induction h generalizing n with
  | last => exact absurd hn (by simp; omega)
  | @more logits decoder token logits' decoder' tokens final hnext hgoes hforward hrest ih =>
    obtain ⟨m, rfl⟩ : ∃ m, n = m + 1 := ⟨n - 1, by omega⟩
    rw [List.take_succ_cons]
    rcases Nat.eq_zero_or_pos m with rfl | hm
    · exact ⟨decoder, .last hnext, by simp [hgoes]⟩
    · obtain ⟨final', hfirst, hlast⟩ := ih hm (by simpa using hn)
      refine ⟨final', .more hnext hgoes hforward hfirst, ?_⟩
      rw [List.getLast?_cons]
      rcases htake : (tokens.take m).getLast? with _ | last
      · exact absurd (List.getLast?_eq_none_iff.mp htake) hfirst.ne_nil
      · simpa [htake] using hlast

theorem Answers.control_of {onToken : TokenId → Effect κ EngineError DecodeControl}
    (hcontinues : ∀ token captured control captured',
      onToken token captured = (.ok control, captured') → control = .Continue)
    {captured captured' : κ} {tokens : List TokenId} {control : DecodeControl}
    (h : Answers onToken captured tokens captured' control) : control = .Continue := by
  induction h with
  | last hcall => exact hcontinues _ _ _ _ hcall
  | more _ _ ih => exact ih

theorem answers_of_continue {onToken : TokenId → Effect κ EngineError DecodeControl}
    (hcontinues : ∀ token captured, onToken token captured = (.ok .Continue, captured))
    (captured : κ) {tokens : List TokenId} (hne : tokens ≠ []) :
    Answers onToken captured tokens captured .Continue := by
  induction tokens with
  | nil => exact absurd rfl hne
  | cons token tokens ih =>
    rcases tokens with _ | ⟨token', tokens⟩
    · exact .last (hcontinues token captured)
    · exact .more (hcontinues token captured) (ih (List.cons_ne_nil _ _))

/-- Why a run that emitted these tokens stopped. -/
def stopReason (shouldStop : TokenId → Bool) (tokens : List TokenId) (control : DecodeControl) :
    DecodeStopReason :=
  if tokens.getLast?.any shouldStop then .TokenPredicate
  else if control = .Stop then .Consumer
  else .Length

theorem stopReason_cons {shouldStop : TokenId → Bool} {token : TokenId} {tokens : List TokenId}
    (hne : tokens ≠ []) (control : DecodeControl) :
    stopReason shouldStop (token :: tokens) control = stopReason shouldStop tokens control := by
  unfold stopReason
  rw [List.getLast?_cons]
  rcases hlast : tokens.getLast? with _ | last
  · exact absurd (List.getLast?_eq_none_iff.mp hlast) hne
  · rfl

variable {maxNew : Nat} {shouldStop : TokenId → Bool}
  {onToken : TokenId → Effect κ EngineError DecodeControl}

/-- One iteration of the loop. -/
theorem decodeLoop_succ (fuel : Nat) (logits : Λ) (generated : List TokenId) (decoder : δ)
    (captured : κ) :
    pass.decodeLoop maxNew shouldStop onToken (fuel + 1) logits generated (decoder, captured) =
      match pass.argmax logits with
      | .err e => (.err e, decoder, captured)
      | .fault k => (.fault k, decoder, captured)
      | .ok next =>
        match onToken next captured with
        | (.err e, captured') => (.err e, decoder, captured')
        | (.fault k, captured') => (.fault k, decoder, captured')
        | (.ok control, captured') =>
          if shouldStop next then (.ok ⟨generated ++ [next], .TokenPredicate⟩, decoder, captured')
          else if control = .Stop then (.ok ⟨generated ++ [next], .Consumer⟩, decoder, captured')
          else if (generated ++ [next]).length = maxNew then
            (.ok ⟨generated ++ [next], .Length⟩, decoder, captured')
          else
            match pass.forwardLogits next decoder with
            | (.err e, decoder') => (.err e, decoder', captured')
            | (.fault k, decoder') => (.fault k, decoder', captured')
            | (.ok logits', decoder') =>
              pass.decodeLoop maxNew shouldStop onToken fuel logits' (generated ++ [next])
                (decoder', captured') := by
  rw [decodeLoop, Effect.run_bind, Effect.run_lift]
  rcases pass.argmax logits with next | e | k
  · dsimp only
    rw [Effect.run_bind, Effect.second_apply]
    rcases onToken next captured with ⟨control | e | k, captured'⟩
    · dsimp only
      split
      · rfl
      split
      · rfl
      split
      · rfl
      rw [Effect.run_bind, Effect.first_apply]
      rcases pass.forwardLogits next decoder with ⟨logits' | e | k, decoder'⟩ <;> rfl
    · rfl
    · rfl
  · rfl
  · rfl

/-- A run that returns, read off what it emits and what its callback answers. -/
theorem decodeLoop_eq_ok {fuel : Nat} {logits : Λ} {generated : List TokenId} {decoder final : δ}
    {captured captured' : κ} {output : DecodeOutput} (hfuel : generated.length + fuel = maxNew) :
    pass.decodeLoop maxNew shouldStop onToken fuel logits generated (decoder, captured) =
        (.ok output, final, captured') ↔
      ∃ tokens control, tokens.length ≤ fuel ∧ pass.Emits shouldStop logits decoder tokens final ∧
        Answers onToken captured tokens captured' control ∧
        output = ⟨generated ++ tokens, stopReason shouldStop tokens control⟩ ∧
        (output.stopReason = .Length → tokens.length = fuel) := by
  induction fuel generalizing logits generated decoder captured with
  | zero =>
    constructor
    · intro h
      exact absurd (Prod.mk.inj h).1 (by simp)
    · rintro ⟨tokens, control, hlen, hemits, -⟩
      exact absurd (List.eq_nil_of_length_eq_zero (by omega)) hemits.ne_nil
  | succ fuel ih =>
    rw [decodeLoop_succ]
    constructor
    · intro h
      rcases hnext : pass.argmax logits with next | e | k
      · rw [hnext] at h
        dsimp only at h
        rcases hcall : onToken next captured with ⟨control | e | k, captured₁⟩
        · rw [hcall] at h
          dsimp only at h
          split at h
          · -- `should_stop(next)`, whatever the callback answered
            rename_i hstop
            obtain ⟨hout, rfl, rfl⟩ := by simpa only [Prod.mk.injEq] using h
            obtain rfl := Outcome.ok.inj hout
            exact ⟨[next], control, by simp, .last hnext, .last hcall, by simp [stopReason, hstop],
              by simp⟩
          rename_i hgoes
          split at h
          · -- the callback asked for the end
            rename_i hstop
            obtain ⟨hout, rfl, rfl⟩ := by simpa only [Prod.mk.injEq] using h
            obtain rfl := Outcome.ok.inj hout
            exact ⟨[next], control, by simp, .last hnext, .last hcall,
              by simp [stopReason, hstop, hgoes], by simp⟩
          rename_i hcontinue
          obtain rfl : control = .Continue := by
            cases control with
            | Continue => rfl
            | Stop => exact absurd rfl hcontinue
          split at h
          · -- `generated.len() == max_new`
            rename_i hlen
            obtain ⟨hout, rfl, rfl⟩ := by simpa only [Prod.mk.injEq] using h
            obtain rfl := Outcome.ok.inj hout
            refine ⟨[next], .Continue, by simp, .last hnext, .last hcall,
              by simp [stopReason, hgoes], ?_⟩
            intro _
            rw [List.length_append, List.length_singleton] at hlen
            rw [List.length_singleton]
            omega
          rename_i hmore
          rcases hforward : pass.forwardLogits next decoder with ⟨logits' | e | k, decoder'⟩
          · -- none of them: the rest of the run is one with less fuel
            rw [hforward] at h
            dsimp only at h
            have hlen : (generated ++ [next]).length + fuel = maxNew := by
              rw [List.length_append, List.length_singleton]
              omega
            obtain ⟨tokens, control, htokens, hemits, hanswers, rfl, hlength⟩ := (ih hlen).mp h
            refine ⟨next :: tokens, control, by simpa using htokens,
              .more hnext (by simpa using hgoes) hforward hemits, .more hcall hanswers, ?_, ?_⟩
            · rw [stopReason_cons hemits.ne_nil, List.append_assoc, List.singleton_append]
            · intro hreason
              rw [List.length_cons, hlength hreason]
          · rw [hforward] at h
            exact absurd (Prod.mk.inj h).1 (by simp)
          · rw [hforward] at h
            exact absurd (Prod.mk.inj h).1 (by simp)
        · rw [hcall] at h
          exact absurd (Prod.mk.inj h).1 (by simp)
        · rw [hcall] at h
          exact absurd (Prod.mk.inj h).1 (by simp)
      · rw [hnext] at h
        exact absurd (Prod.mk.inj h).1 (by simp)
      · rw [hnext] at h
        exact absurd (Prod.mk.inj h).1 (by simp)
    · rintro ⟨tokens, control, hlen, hemits, hanswers, rfl, hlength⟩
      cases hemits with
      | @last _ _ next hnext =>
        rw [hnext]
        dsimp only
        cases hanswers with
        | last hcall =>
          rw [hcall]
          dsimp only
          by_cases hstop : shouldStop next = true
          · rw [if_pos hstop]
            simp [stopReason, hstop]
          rw [if_neg hstop]
          by_cases hcontrol : control = .Stop
          · rw [if_pos hcontrol]
            simp [stopReason, hstop, hcontrol]
          · -- the budget is spent, or the reason would be another
            have hfuel' : [next].length = fuel + 1 := hlength (by simp [stopReason, hstop, hcontrol])
            rw [if_neg hcontrol, if_pos (by
              rw [List.length_append, hfuel']
              exact hfuel)]
            simp [stopReason, hstop, hcontrol]
        | more _ hrest => cases hrest
      | @more _ _ next logits' decoder' tokens _ hnext hgoes hforward hrest =>
        rw [hnext]
        dsimp only
        cases hanswers with
        | last => exact absurd rfl hrest.ne_nil
        | more hcall hanswers =>
          have hone : 1 ≤ tokens.length := by
            have := List.length_pos_iff.mpr hrest.ne_nil
            omega
          rw [List.length_cons] at hlen
          rw [hcall]
          dsimp only
          rw [if_neg (by simp [hgoes]), if_neg (by simp), if_neg (by
            rw [List.length_append, List.length_singleton]
            omega), hforward]
          dsimp only
          refine (ih (by rw [List.length_append, List.length_singleton]; omega)).mpr
            ⟨tokens, control, by omega, hrest, hanswers, ?_, ?_⟩
          · rw [stopReason_cons hrest.ne_nil, List.append_assoc, List.singleton_append]
          · intro hreason
            have := hlength hreason
            rw [List.length_cons] at this
            omega

-- ---------------------------------------------------------------------------
-- The prompt
-- ---------------------------------------------------------------------------

/-- The passes over a prompt, up to the logits of its last token. -/
def prime (pass : ForwardPass δ Λ) (prompt : List TokenId) (last : TokenId) :
    Effect δ EngineError Λ := do
  pass.prefill prompt.dropLast
  pass.forwardLogits last

theorem prime_position {prompt : List TokenId} {last : TokenId} {decoder decoder' : δ}
    {logits : Λ} (hlast : prompt.getLast? = some last)
    (h : pass.prime prompt last decoder = (.ok logits, decoder')) :
    pass.position decoder' = pass.position decoder + prompt.length := by
  obtain ⟨⟨⟩, primed, hprefill, hlogits⟩ := Effect.bind_eq_ok.mp h
  have hne : prompt ≠ [] := by
    rintro rfl
    exact absurd hlast (by simp)
  have hpos := List.length_pos_iff.mpr hne
  rw [forwardToken_position (forwardLogits_eq_ok hlogits), prefill_position hprefill,
    List.length_dropLast]
  omega

/-- A call with a budget: the prompt, then the loop. -/
theorem generateUntilWithCallback_eq {prompt : List TokenId} {last : TokenId}
    (hlast : prompt.getLast? = some last) (hbudget : maxNew ≠ 0) (decoder : δ) (captured : κ) :
    pass.generateUntilWithCallback prompt maxNew shouldStop onToken (decoder, captured) =
      match pass.prime prompt last decoder with
      | (.ok logits, decoder') =>
        pass.decodeLoop maxNew shouldStop onToken maxNew logits [] (decoder', captured)
      | (.err e, decoder') => (.err e, decoder', captured)
      | (.fault k, decoder') => (.fault k, decoder', captured) := by
  unfold generateUntilWithCallback prime
  rw [hlast]
  dsimp only
  rw [if_neg hbudget, Effect.run_bind, Effect.first_apply, Effect.run_bind]
  rcases pass.prefill prompt.dropLast decoder with ⟨⟨⟩ | e | k, primed⟩
  · dsimp only
    rw [Effect.run_bind, Effect.first_apply]
    rcases pass.forwardLogits last primed with ⟨logits | e | k, decoder'⟩ <;> rfl
  · rfl
  · rfl

theorem generateUntilWithCallback_zero {prompt : List TokenId} (hne : prompt ≠ [])
    (decoder : δ) (captured : κ) :
    pass.generateUntilWithCallback prompt 0 shouldStop onToken (decoder, captured) =
      (.ok ⟨[], .Length⟩, decoder, captured) := by
  unfold generateUntilWithCallback
  rcases hlast : prompt.getLast? with _ | last
  · exact absurd (List.getLast?_eq_none_iff.mp hlast) hne
  · rfl

/-- A call that returns, read off what it emits and what its callback answers. -/
theorem generateUntilWithCallback_eq_ok {prompt : List TokenId} (hne : prompt ≠ [])
    {decoder final : δ} {captured captured' : κ} {output : DecodeOutput} :
    pass.generateUntilWithCallback prompt maxNew shouldStop onToken (decoder, captured) =
        (.ok output, final, captured') ↔
      (maxNew = 0 ∧ output = ⟨[], .Length⟩ ∧ final = decoder ∧ captured' = captured) ∨
      (maxNew ≠ 0 ∧ ∃ last logits primed tokens control, prompt.getLast? = some last ∧
        pass.prime prompt last decoder = (.ok logits, primed) ∧
        tokens.length ≤ maxNew ∧ pass.Emits shouldStop logits primed tokens final ∧
        Answers onToken captured tokens captured' control ∧
        output = ⟨tokens, stopReason shouldStop tokens control⟩ ∧
        (output.stopReason = .Length → tokens.length = maxNew)) := by
  rcases Nat.eq_zero_or_pos maxNew with rfl | hpos
  · rw [generateUntilWithCallback_zero hne]
    constructor
    · intro h
      obtain ⟨hout, rfl, rfl⟩ := by simpa only [Prod.mk.injEq] using h
      exact Or.inl ⟨rfl, (Outcome.ok.inj hout).symm, rfl, rfl⟩
    · rintro (⟨-, rfl, rfl, rfl⟩ | ⟨hcon, -⟩)
      · rfl
      · exact absurd rfl hcon
  have hbudget : maxNew ≠ 0 := by omega
  have hzero : ([] : List TokenId).length + maxNew = maxNew := Nat.zero_add _
  obtain ⟨last, hlast⟩ := Option.ne_none_iff_exists'.mp (mt List.getLast?_eq_none_iff.mp hne)
  rw [generateUntilWithCallback_eq hlast hbudget]
  constructor
  · intro h
    rcases hprime : pass.prime prompt last decoder with ⟨logits | e | k, primed⟩
    case err | fault =>
      rw [hprime] at h
      exact absurd (Prod.mk.inj h).1 (by simp)
    rw [hprime] at h
    obtain ⟨tokens, control, hlen, hemits, hanswers, houtput, hlength⟩ :=
      (decodeLoop_eq_ok hzero).mp h
    exact Or.inr ⟨hbudget, last, logits, primed, tokens, control, hlast, hprime, hlen, hemits,
      hanswers, houtput, hlength⟩
  · rintro (⟨hcon, -⟩ | ⟨-, last', logits, primed, tokens, control, hlast', hprime, hlen, hemits,
      hanswers, houtput, hlength⟩)
    · exact absurd hcon hbudget
    · obtain rfl : last = last' := Option.some.inj (hlast.symm.trans hlast')
      rw [hprime]
      exact (decodeLoop_eq_ok hzero).mpr
        ⟨tokens, control, hlen, hemits, hanswers, houtput, hlength⟩

end ForwardPass

-- ---------------------------------------------------------------------------
-- The callback of an incremental call
-- ---------------------------------------------------------------------------

namespace LoadedModel

open ForwardPass

variable {model : LoadedModel δ Λ}

/-- A consumer that never cancels. -/
def neverCancels (_ : List TokenDelta) : GenerationControl := .Continue

theorem onToken_apply (consumer : List TokenDelta → GenerationControl) (token : TokenId)
    (decoder : IncrementalDecoder) (received : List TokenDelta) :
    model.onToken consumer token (decoder, received) =
      match decoder.push model.tokenizer token with
      | (.ok text, decoder') =>
        (.ok (controlOf (consumer (received ++ [⟨token, text⟩]))), decoder',
          received ++ [⟨token, text⟩])
      | (.err e, decoder') => (.err e, decoder', received)
      | (.fault k, decoder') => (.fault k, decoder', received) := by
  rw [onToken, Effect.run_bind, Effect.first_apply, pushToken]
  rcases decoder.push model.tokenizer token with ⟨text | e | k, decoder'⟩
  · rfl
  · rfl
  · rfl

/-- What a consumer was told by the calls that returned: the tokens in order, and
texts that spell what they decode to. -/
theorem answers_received {consumer : List TokenDelta → GenerationControl}
    {captured captured' : IncrementalDecoder × List TokenDelta} {tokens : List TokenId}
    {control : DecodeControl} (hsync : captured.1.Synced model.tokenizer)
    (h : Answers (model.onToken consumer) captured tokens captured' control) :
    ∃ deltas, captured'.2 = captured.2 ++ deltas ∧ deltas.map (·.tokenId) = tokens ∧
      model.tokenizer.decode (captured.1.tokenIds ++ tokens) captured.1.removeSpecial =
        .ok (captured.1.emitted ++ (deltas.map (·.text)).flatten) := by
  induction h with
  | @last captured token captured' control hcall =>
    rw [← Prod.eta captured, onToken_apply] at hcall
    rcases IncrementalDecoder.push_cases hsync token with ⟨text, hpush⟩ | ⟨e, -, hpush⟩
    · have hsync' := IncrementalDecoder.push_synced hpush
      rw [hpush] at hcall
      obtain ⟨-, rfl⟩ := Prod.mk.inj hcall
      refine ⟨[⟨token, text⟩], rfl, rfl, ?_⟩
      simpa [IncrementalDecoder.Synced] using hsync'
    · rw [hpush] at hcall
      exact absurd (Prod.mk.inj hcall).1 (by simp)
  | @more captured token captured' tokens final control hcall hrest ih =>
    rw [← Prod.eta captured, onToken_apply] at hcall
    rcases IncrementalDecoder.push_cases hsync token with ⟨text, hpush⟩ | ⟨e, -, hpush⟩
    · have hsync' := IncrementalDecoder.push_synced hpush
      rw [hpush] at hcall
      obtain ⟨-, rfl⟩ := Prod.mk.inj hcall
      obtain ⟨deltas, hreceived, hids, htext⟩ := ih hsync'
      refine ⟨⟨token, text⟩ :: deltas, ?_, by rw [List.map_cons, hids], ?_⟩
      · rw [hreceived, List.append_assoc, List.singleton_append]
      · simpa [List.append_assoc] using htext
    · rw [hpush] at hcall
      exact absurd (Prod.mk.inj hcall).1 (by simp)

/-- An id that still decodes is taken. -/
theorem push_of_decode {tokenizer : Tokenizer} {decoder : IncrementalDecoder} {id : TokenId}
    {text : Str} (hsync : decoder.Synced tokenizer)
    (hdecode : tokenizer.decode (decoder.tokenIds ++ [id]) decoder.removeSpecial = .ok text) :
    ∃ delta, decoder.push tokenizer id =
      (.ok delta, { decoder with
        tokenIds := decoder.tokenIds ++ [id]
        emitted := decoder.emitted ++ delta }) := by
  rcases IncrementalDecoder.push_cases hsync id with hpush | ⟨e, -, hpush⟩
  · exact hpush
  · -- a failed push would mean that the text had changed
    obtain ⟨before, hbefore, rest, rfl⟩ :=
      Tokenizer.decode_prefixMonotone tokenizer decoder.removeSpecial _ [id] text hdecode
    obtain rfl : decoder.emitted = before := Outcome.ok.inj (hsync.symm.trans hbefore)
    simp only [IncrementalDecoder.push, hdecode, IncrementalDecoder.stripPrefix_append] at hpush
    exact absurd (Prod.mk.inj hpush).1 (by simp)

/-- Tokens that decode are all taken, when nobody cancels. -/
theorem answers_neverCancels {captured : IncrementalDecoder × List TokenDelta}
    {tokens : List TokenId} {text : Str} (hsync : captured.1.Synced model.tokenizer)
    (hne : tokens ≠ [])
    (hdecode : model.tokenizer.decode (captured.1.tokenIds ++ tokens) captured.1.removeSpecial =
      .ok text) :
    ∃ captured', Answers (model.onToken neverCancels) captured tokens captured' .Continue := by
  induction tokens generalizing captured with
  | nil => exact absurd rfl hne
  | cons token tokens ih =>
    rw [← List.singleton_append, ← List.append_assoc] at hdecode
    obtain ⟨shown, hshown, -⟩ :=
      Tokenizer.decode_prefixMonotone model.tokenizer _ _ tokens text hdecode
    obtain ⟨delta, hpush⟩ := push_of_decode hsync hshown
    have hsync' := IncrementalDecoder.push_synced hpush
    have hcall : model.onToken neverCancels token captured =
        (.ok .Continue,
          { captured.1 with
            tokenIds := captured.1.tokenIds ++ [token]
            emitted := captured.1.emitted ++ delta },
          captured.2 ++ [⟨token, delta⟩]) := by
      rw [← Prod.eta captured, onToken_apply, hpush]
      rfl
    rcases tokens with _ | ⟨token', tokens⟩
    · exact ⟨_, .last hcall⟩
    · obtain ⟨captured', hrest⟩ := @ih (_, captured.2 ++ [⟨token, delta⟩]) hsync'
        (List.cons_ne_nil _ _) hdecode
      exact ⟨captured', .more hcall hrest⟩

-- ---------------------------------------------------------------------------
-- A consumer against one that never cancels
-- ---------------------------------------------------------------------------

variable {maxNew : Nat} {shouldStop : TokenId → Bool} {consumer : List TokenDelta → GenerationControl}

/-- What a consumer has received stays received. -/
theorem decodeLoop_received (fuel : Nat) (logits : Λ) (generated : List TokenId) (decoder : δ)
    (captured : IncrementalDecoder × List TokenDelta) :
    captured.2 <+: (model.pass.decodeLoop maxNew shouldStop (model.onToken consumer) fuel logits
      generated (decoder, captured)).2.2.2 := by
  induction fuel generalizing logits generated decoder captured with
  | zero => exact List.prefix_refl _
  | succ fuel ih =>
    obtain ⟨text, received⟩ := captured
    rw [decodeLoop_succ]
    rcases model.pass.argmax logits with next | e | k
    · dsimp only
      rw [onToken_apply]
      rcases text.push model.tokenizer next with ⟨delta | e | k, text'⟩
      · dsimp only
        have hgrows : received <+: received ++ [⟨next, delta⟩] := List.prefix_append _ _
        split
        · exact hgrows
        split
        · exact hgrows
        split
        · exact hgrows
        rcases model.pass.forwardLogits next decoder with ⟨logits' | e | k, decoder'⟩
        · exact hgrows.trans (ih logits' _ decoder' (text', received ++ [⟨next, delta⟩]))
        · exact hgrows
        · exact hgrows
      · exact List.prefix_refl _
      · exact List.prefix_refl _
    · exact List.prefix_refl _
    · exact List.prefix_refl _

/-- `run` is `full`, or it is `full` up to the token its consumer cancelled at: no
pass was made after that token, and only a stop token outranks the cancellation. -/
structure CancelledAt (pass : ForwardPass δ Λ) (consumer : List TokenDelta → GenerationControl)
    (start : δ) (already k : Nat)
    (full run : EngineResult DecodeOutput × δ × IncrementalDecoder × List TokenDelta) : Prop where
  after : already < k
  within : k ≤ full.2.2.2.length
  continued : ∀ i, already < i → i < k → consumer (full.2.2.2.take i) = .Continue
  cancelled : consumer (full.2.2.2.take k) = .Cancel
  received : run.2.2.2 = full.2.2.2.take k
  passes : pass.position run.2.1 + already + 1 = pass.position start + k
  result : ∃ output, run.1 = .ok output ∧
    (output.stopReason = .Consumer ∨ output.stopReason = .TokenPredicate ∧ full.1 = .ok output)

theorem take_of_prefix {α : Type} {xs ys : List α} (h : xs <+: ys) : ys.take xs.length = xs := by
  obtain ⟨rest, rfl⟩ := h
  exact List.take_left

/-- By induction on the iterations: the two loops do the same until the first
answer that differs. -/
theorem decodeLoop_consumer (fuel : Nat) (logits : Λ) (generated : List TokenId) (decoder : δ)
    (captured : IncrementalDecoder × List TokenDelta) :
    let full := model.pass.decodeLoop maxNew shouldStop (model.onToken neverCancels) fuel logits
      generated (decoder, captured)
    let run := model.pass.decodeLoop maxNew shouldStop (model.onToken consumer) fuel logits
      generated (decoder, captured)
    (run = full ∧ ∀ i, captured.2.length < i → i ≤ full.2.2.2.length →
      consumer (full.2.2.2.take i) = .Continue) ∨
    ∃ k, CancelledAt model.pass consumer decoder captured.2.length k full run := by
  induction fuel generalizing logits generated decoder captured with
  | zero =>
    refine Or.inl ⟨rfl, ?_⟩
    intro i hi hle
    exact absurd hle (Nat.not_le.mpr hi)
  | succ fuel ih =>
    obtain ⟨text, received⟩ := captured
    intro full run
    -- both stop alike, and nothing was received
    have hsame : run = full → full.2.2.2 = received →
        run = full ∧ ∀ i, received.length < i → i ≤ full.2.2.2.length →
          consumer (full.2.2.2.take i) = .Continue := by
      intro hrun hreceived
      refine ⟨hrun, ?_⟩
      intro i hi hle
      rw [hreceived] at hle
      omega
    have hfull : full = _ := decodeLoop_succ fuel logits generated decoder (text, received)
    have hrun : run = _ := decodeLoop_succ fuel logits generated decoder (text, received)
    rcases hnext : model.pass.argmax logits with next | e | k
    case err | fault =>
      rw [hnext] at hfull hrun
      exact Or.inl (hsame (hrun.trans hfull.symm) (by rw [hfull]))
    rw [hnext] at hfull hrun
    dsimp only at hfull hrun
    rw [onToken_apply] at hfull hrun
    rcases hpush : text.push model.tokenizer next with ⟨delta | e | k, text'⟩
    case err | fault =>
      rw [hpush] at hfull hrun
      exact Or.inl (hsame (hrun.trans hfull.symm) (by rw [hfull]))
    rw [hpush] at hfull hrun
    dsimp only at hfull hrun
    -- the token has been reported
    have hreported : received ++ [⟨next, delta⟩] <+: full.2.2.2 := by
      rw [hfull]
      split
      · exact List.prefix_refl _
      split
      · exact List.prefix_refl _
      split
      · exact List.prefix_refl _
      rcases model.pass.forwardLogits next decoder with ⟨logits' | e | k, decoder'⟩
      · exact decodeLoop_received fuel logits' _ decoder' (text', received ++ [⟨next, delta⟩])
      · exact List.prefix_refl _
      · exact List.prefix_refl _
    have hlength : (received ++ [⟨next, delta⟩] : List TokenDelta).length = received.length + 1 := by
      simp
    have htake : full.2.2.2.take (received.length + 1) = received ++ [⟨next, delta⟩] := by
      rw [← hlength]
      exact take_of_prefix hreported
    rcases hanswer : consumer (received ++ [⟨next, delta⟩]) with _ | _
    · -- it continues, and the loops go the same way
      rw [hanswer] at hrun
      have hlast : run = full → full.2.2.2 = received ++ [⟨next, delta⟩] →
          run = full ∧ ∀ i, received.length < i → i ≤ full.2.2.2.length →
            consumer (full.2.2.2.take i) = .Continue := by
        intro hsame hreceived
        refine ⟨hsame, ?_⟩
        intro i hi hle
        rw [hreceived, hlength] at hle
        obtain rfl : i = received.length + 1 := by omega
        rw [htake, hanswer]
      change full = if shouldStop next = true then _ else if DecodeControl.Continue = .Stop then _
        else _ at hfull
      change run = if shouldStop next = true then _ else if DecodeControl.Continue = .Stop then _
        else _ at hrun
      by_cases hstop : shouldStop next = true
      · rw [if_pos hstop] at hfull hrun
        exact Or.inl (hlast (hrun.trans hfull.symm) (by rw [hfull]))
      rw [if_neg hstop, if_neg (by simp)] at hfull hrun
      by_cases hbudget : (generated ++ [next]).length = maxNew
      · rw [if_pos hbudget] at hfull hrun
        exact Or.inl (hlast (hrun.trans hfull.symm) (by rw [hfull]))
      rw [if_neg hbudget] at hfull hrun
      rcases hforward : model.pass.forwardLogits next decoder with ⟨logits' | e | k, decoder'⟩
      case err | fault =>
        rw [hforward] at hfull hrun
        exact Or.inl (hlast (hrun.trans hfull.symm) (by rw [hfull]))
      rw [hforward] at hfull hrun
      dsimp only at hfull hrun
      have hposition := forwardToken_position (forwardLogits_eq_ok hforward)
      -- an index past the old end is this token's, or one of the rest
      have hextend : ∀ k, (∀ i, received.length + 1 < i → i < k →
          consumer (full.2.2.2.take i) = .Continue) →
          ∀ i, received.length < i → i < k → consumer (full.2.2.2.take i) = .Continue := by
        intro k h i hi hk
        rcases Nat.eq_or_lt_of_le hi with rfl | hi
        · rw [htake, hanswer]
        · exact h i hi hk
      have hrest := ih logits' (generated ++ [next]) decoder' (text', received ++ [⟨next, delta⟩])
      dsimp only at hrest
      rw [← hfull, ← hrun, hlength] at hrest
      rcases hrest with ⟨heq, hcontinued⟩ | ⟨k, hk⟩
      · refine Or.inl ⟨heq, ?_⟩
        intro i hi hle
        exact hextend (i + 1) (fun j hj hlt => hcontinued j hj (by omega)) i hi (by omega)
      · refine Or.inr ⟨k, ?_⟩
        have hafter := hk.after
        have hpasses := hk.passes
        exact ⟨by show received.length < k; omega, hk.within, hextend k hk.continued, hk.cancelled,
          hk.received, by show _ + received.length + 1 = _; omega, hk.result⟩
    · -- it cancels here
      rw [hanswer] at hrun
      change run = if shouldStop next = true then _ else if DecodeControl.Stop = .Stop then _
        else _ at hrun
      refine Or.inr ⟨received.length + 1, ?_⟩
      have hwithin : received.length + 1 ≤ full.2.2.2.length := by
        rw [← hlength]
        exact hreported.length_le
      have hnone : ∀ i, received.length < i → i < received.length + 1 →
          consumer (full.2.2.2.take i) = .Continue := by
        intro i hi hlt
        omega
      by_cases hstop : shouldStop next = true
      · rw [if_pos hstop] at hfull hrun
        refine ⟨Nat.lt_succ_self _, hwithin, hnone, by rw [htake, hanswer], by rw [hrun, htake], ?_,
          ⟨_, by rw [hrun], Or.inr ⟨rfl, by rw [hfull]⟩⟩⟩
        rw [hrun]
        rfl
      · rw [if_neg hstop, if_pos rfl] at hrun
        refine ⟨Nat.lt_succ_self _, hwithin, hnone, by rw [htake, hanswer], by rw [hrun, htake], ?_,
          ⟨_, by rw [hrun], Or.inl rfl⟩⟩
        rw [hrun]
        rfl

-- ---------------------------------------------------------------------------
-- Where a run that fails failed
-- ---------------------------------------------------------------------------

/-- What can stop a request that was accepted: the computations themselves. That
the cache is full is not among them. -/
inductive FailsIn (model : LoadedModel δ Λ) : EngineError ⊕ Fault → Prop
  | new {stop} (h : model.pass.new.failure = some stop) : FailsIn model stop
  | compute {stop} (decoder : δ) (token : TokenId) (computeLogits : Bool)
      (hfree : model.pass.position decoder < model.pass.contextLength)
      (h : (model.pass.compute token computeLogits decoder).1.failure = some stop) :
      FailsIn model stop
  | argmax {stop} (logits : Λ) (h : (model.pass.argmax logits).failure = some stop) :
      FailsIn model stop
  | decode {e} (h : Tokenizer.DecodeError e) : FailsIn model (.inl e)

variable {stop : EngineError ⊕ Fault}

theorem forwardToken_failure {token : TokenId} {computeLogits : Bool} {decoder : δ}
    (hfree : model.pass.position decoder < model.pass.contextLength)
    (h : (model.pass.forwardToken token computeLogits decoder).1.failure = some stop) :
    FailsIn model stop := by
  unfold forwardToken at h
  rw [if_pos hfree] at h
  exact .compute decoder token computeLogits hfree h

theorem forwardLogits_failure {token : TokenId} {decoder : δ}
    (hfree : model.pass.position decoder < model.pass.contextLength)
    (h : (model.pass.forwardLogits token decoder).1.failure = some stop) : FailsIn model stop := by
  have hforward : (model.pass.forwardToken token true decoder).1.failure = some stop →
      FailsIn model stop := forwardToken_failure hfree
  rw [forwardLogits, Effect.run_bind] at h
  rcases hpass : model.pass.forwardToken token true decoder with ⟨logits | e | k, decoder'⟩
  · rw [hpass] at h
    change (Outcome.orPanic logits : EngineResult Λ).failure = some stop at h
    have hcompute : model.pass.compute token true decoder = (.ok logits, decoder') := by
      unfold forwardToken at hpass
      rwa [if_pos hfree] at hpass
    -- logits were asked for, so they are there
    obtain ⟨row, rfl⟩ := Option.isSome_iff_exists.mp
      (model.pass.compute_logits decoder token logits decoder' hcompute)
    exact absurd h (by simp [Outcome.orPanic])
  · rw [hpass] at h hforward
    exact hforward h
  · rw [hpass] at h hforward
    exact hforward h

theorem prefill_failure {tokens : List TokenId} {decoder : δ}
    (hfits : model.pass.position decoder + tokens.length ≤ model.pass.contextLength)
    (h : (model.pass.prefill tokens decoder).1.failure = some stop) : FailsIn model stop := by
  induction tokens generalizing decoder with
  | nil => exact absurd h (by simp [prefill])
  | cons token tokens ih =>
    rw [List.length_cons] at hfits
    have hfree : model.pass.position decoder < model.pass.contextLength := by omega
    have hforward : (model.pass.forwardToken token false decoder).1.failure = some stop →
        FailsIn model stop := forwardToken_failure hfree
    rw [prefill, Effect.run_bind] at h
    rcases hpass : model.pass.forwardToken token false decoder with ⟨logits | e | k, decoder'⟩
    · rw [hpass] at h
      have hposition := forwardToken_position hpass
      exact ih (by omega) h
    · rw [hpass] at h hforward
      exact hforward h
    · rw [hpass] at h hforward
      exact hforward h

theorem prime_failure {prompt : List TokenId} {last : TokenId} {decoder : δ}
    (hlast : prompt.getLast? = some last)
    (hfits : model.pass.position decoder + prompt.length ≤ model.pass.contextLength)
    (h : (model.pass.prime prompt last decoder).1.failure = some stop) : FailsIn model stop := by
  have hne : prompt ≠ [] := by
    rintro rfl
    exact absurd hlast (by simp)
  have hpos := List.length_pos_iff.mpr hne
  have hprefill : (model.pass.prefill prompt.dropLast decoder).1.failure = some stop →
      FailsIn model stop := prefill_failure (by rw [List.length_dropLast]; omega)
  rw [prime, Effect.run_bind] at h
  rcases hrun : model.pass.prefill prompt.dropLast decoder with ⟨⟨⟩ | e | k, primed⟩
  · rw [hrun] at h
    have hposition := prefill_position hrun
    rw [List.length_dropLast] at hposition
    exact forwardLogits_failure (by omega) h
  · rw [hrun] at h hprefill
    exact hprefill h
  · rw [hrun] at h hprefill
    exact hprefill h

/-- By induction on the iterations: the position and the fuel left never exceed the
context together, so each pass finds a free position. -/
theorem decodeLoop_failure {onToken : TokenId → Effect κ EngineError DecodeControl}
    {I : κ → Prop} (hkeeps : ∀ token captured control captured', I captured →
      onToken token captured = (.ok control, captured') → I captured')
    (hfails : ∀ token captured, I captured →
      (onToken token captured).1.failure = some stop → FailsIn model stop)
    {fuel : Nat} {logits : Λ} {generated : List TokenId} {decoder : δ} {captured : κ}
    (hpos : 0 < fuel) (hfuel : generated.length + fuel = maxNew)
    (hfits : model.pass.position decoder + fuel ≤ model.pass.contextLength) (hI : I captured)
    (h : (model.pass.decodeLoop maxNew shouldStop onToken fuel logits generated
      (decoder, captured)).1.failure = some stop) : FailsIn model stop := by
  induction fuel generalizing logits generated decoder captured with
  | zero => exact absurd hpos (Nat.lt_irrefl 0)
  | succ fuel ih =>
    rw [decodeLoop_succ] at h
    have hargmax : (model.pass.argmax logits).failure = some stop → FailsIn model stop :=
      .argmax logits
    rcases hnext : model.pass.argmax logits with next | e | k
    case err | fault =>
      rw [hnext] at h hargmax
      exact hargmax h
    rw [hnext] at h
    dsimp only at h
    have hcallback := hfails next captured hI
    rcases hcall : onToken next captured with ⟨control | e | k, captured'⟩
    case err | fault =>
      rw [hcall] at h hcallback
      exact hcallback h
    rw [hcall] at h
    dsimp only at h
    -- a loop that stops of itself has not failed
    split at h
    · exact absurd h (by simp)
    split at h
    · exact absurd h (by simp)
    split at h
    · exact absurd h (by simp)
    rename_i hbudget
    rw [List.length_append, List.length_singleton] at hbudget
    -- another iteration follows, so by `hfits` there is a position left
    have hfree : model.pass.position decoder < model.pass.contextLength := by omega
    have hforward : (model.pass.forwardLogits next decoder).1.failure = some stop →
        FailsIn model stop := forwardLogits_failure hfree
    rcases hlogits : model.pass.forwardLogits next decoder with ⟨logits' | e | k, decoder'⟩
    case err | fault =>
      rw [hlogits] at h hforward
      exact hforward h
    rw [hlogits] at h
    have hposition := forwardToken_position (forwardLogits_eq_ok hlogits)
    exact ih (by omega) (by rw [List.length_append, List.length_singleton]; omega) (by omega)
      (hkeeps _ _ _ _ hI hcall) h

theorem generateUntilWithCallback_failure
    {onToken : TokenId → Effect κ EngineError DecodeControl} {I : κ → Prop}
    (hkeeps : ∀ token captured control captured', I captured →
      onToken token captured = (.ok control, captured') → I captured')
    (hfails : ∀ token captured, I captured →
      (onToken token captured).1.failure = some stop → FailsIn model stop)
    {prompt : List TokenId} {decoder : δ} {captured : κ} (hne : prompt ≠ [])
    (hstart : model.pass.position decoder = 0)
    (hfits : prompt.length + maxNew ≤ model.pass.contextLength) (hI : I captured)
    (h : (model.pass.generateUntilWithCallback prompt maxNew shouldStop onToken
      (decoder, captured)).1.failure = some stop) : FailsIn model stop := by
  rcases Nat.eq_zero_or_pos maxNew with rfl | hpos
  · rw [generateUntilWithCallback_zero hne] at h
    exact absurd h (by simp)
  obtain ⟨last, hlast⟩ := Option.ne_none_iff_exists'.mp (mt List.getLast?_eq_none_iff.mp hne)
  rw [generateUntilWithCallback_eq hlast (by omega)] at h
  have hprime : (model.pass.prime prompt last decoder).1.failure = some stop →
      FailsIn model stop := prime_failure hlast (by omega)
  rcases hrun : model.pass.prime prompt last decoder with ⟨logits | e | k, decoder'⟩
  case err | fault =>
    rw [hrun] at h hprime
    exact hprime h
  rw [hrun] at h
  have hposition := prime_position hlast hrun
  exact decodeLoop_failure hkeeps hfails hpos (by simp) (by omega) hI h

-- ---------------------------------------------------------------------------
-- The two calls
-- ---------------------------------------------------------------------------

theorem validateGenerationRequest_eq_ok {contextLength maxNewTokens : Nat}
    {promptTokens : List TokenId}
    (h : validateGenerationRequest contextLength promptTokens maxNewTokens = .ok ()) :
    promptTokens ≠ [] ∧ promptTokens.length + maxNewTokens < 2 ^ 64 ∧
      promptTokens.length + maxNewTokens ≤ contextLength := by
  unfold validateGenerationRequest at h
  split at h
  · exact absurd h (by simp)
  rename_i hne
  split at h
  · exact absurd h (by simp)
  split at h
  · exact absurd h (by simp)
  exact ⟨hne, by omega, by omega⟩

/-- A smaller budget is accepted where a larger one is. -/
theorem validateGenerationRequest_mono {contextLength maxNewTokens smaller : Nat}
    {promptTokens : List TokenId} (hle : smaller ≤ maxNewTokens)
    (h : validateGenerationRequest contextLength promptTokens maxNewTokens = .ok ()) :
    validateGenerationRequest contextLength promptTokens smaller = .ok () := by
  obtain ⟨hne, hword, hfits⟩ := validateGenerationRequest_eq_ok h
  unfold validateGenerationRequest
  rw [if_neg hne, if_neg (by omega), if_neg (by omega)]

/-- The tokens a call with this budget generates. -/
def Generates (model : LoadedModel δ Λ) (prompt : List TokenId) (decoder : δ) (maxNew : Nat)
    (tokens : List TokenId) : Prop :=
  maxNew = 0 ∧ tokens = [] ∨
  maxNew ≠ 0 ∧ ∃ last logits primed final, prompt.getLast? = some last ∧
    model.pass.prime prompt last decoder = (.ok logits, primed) ∧
    model.pass.Emits model.isEog logits primed tokens final ∧ tokens.length ≤ maxNew ∧
    (tokens.getLast?.any model.isEog = false → tokens.length = maxNew)

/-- A call whose callback always continues returns what is generated. -/
theorem generates_of_continue {onToken : TokenId → Effect κ EngineError DecodeControl}
    (hcontinues : ∀ token captured control captured',
      onToken token captured = (.ok control, captured') → control = .Continue)
    {prompt : List TokenId} (hne : prompt ≠ []) {decoder final : δ} {captured captured' : κ}
    {output : DecodeOutput}
    (h : model.pass.generateUntilWithCallback prompt maxNew model.isEog onToken
      (decoder, captured) = (.ok output, final, captured')) :
    model.Generates prompt decoder maxNew output.tokenIds ∧ output.stopReason ≠ .Consumer := by
  rcases (generateUntilWithCallback_eq_ok hne).mp h with ⟨rfl, rfl, -, -⟩ |
    ⟨hbudget, last, logits, primed, tokens, control, hlast, hprime, hlen, hemits, hanswers, rfl,
      hlength⟩
  · exact ⟨Or.inl ⟨rfl, rfl⟩, by simp⟩
  have hcontrol := hanswers.control_of hcontinues
  refine ⟨Or.inr ⟨hbudget, last, logits, primed, final, hlast, hprime, hemits, hlen, ?_⟩, ?_⟩
  · intro hgoes
    refine hlength ?_
    simp only [stopReason, hgoes, hcontrol]
    rfl
  · rw [hcontrol]
    simp only [stopReason]
    split
    · simp
    · simp

/-- What is generated is returned by a call whose callback accepts it. -/
theorem generates_returned {onToken : TokenId → Effect κ EngineError DecodeControl}
    {prompt tokens : List TokenId} (hne : prompt ≠ []) {decoder : δ} {captured : κ}
    (hanswers : tokens ≠ [] → ∃ captured', Answers onToken captured tokens captured' .Continue)
    (h : model.Generates prompt decoder maxNew tokens) :
    ∃ output final captured', model.pass.generateUntilWithCallback prompt maxNew model.isEog
      onToken (decoder, captured) = (.ok output, final, captured') ∧ output.tokenIds = tokens := by
  rcases h with ⟨rfl, rfl⟩ |
    ⟨hbudget, last, logits, primed, final, hlast, hprime, hemits, hlen, hlength⟩
  · exact ⟨_, _, _, generateUntilWithCallback_zero hne decoder captured, rfl⟩
  obtain ⟨captured', hanswers⟩ := hanswers hemits.ne_nil
  refine ⟨⟨tokens, stopReason model.isEog tokens .Continue⟩, final, captured', ?_, rfl⟩
  refine (generateUntilWithCallback_eq_ok hne).mpr (Or.inr ⟨hbudget, last, logits, primed, tokens,
    .Continue, hlast, hprime, hlen, hemits, hanswers, rfl, ?_⟩)
  intro hreason
  refine hlength ?_
  rcases hany : tokens.getLast?.any model.isEog with _ | _
  · rfl
  · simp [stopReason, hany] at hreason

/-- `generate`, read off what is generated. -/
theorem generate_eq_ok {prompt : List TokenId} {completion : Completion} :
    model.generate prompt maxNew = .ok completion ↔
      validateGenerationRequest model.pass.contextLength prompt maxNew = .ok () ∧
      ∃ decoder, model.pass.new = .ok decoder ∧
      ∃ tokens, model.Generates prompt decoder maxNew tokens ∧
        model.completedGeneration prompt tokens = .ok completion := by
  unfold generate
  rw [Outcome.bind_eq_ok]
  constructor
  · rintro ⟨⟨⟩, hvalid, h⟩
    obtain ⟨decoder, hnew, h⟩ := Outcome.bind_eq_ok.mp h
    obtain ⟨tokens, htokens, h⟩ := Outcome.bind_eq_ok.mp h
    have hne := (validateGenerationRequest_eq_ok hvalid).1
    obtain ⟨output, ⟨final, ⟨⟩⟩, hrun, hout⟩ :=
      Effect.bind_eq_ok.mp (Prod.ext htokens rfl : _ = (Outcome.ok tokens, _))
    obtain rfl : output.tokenIds = tokens := Outcome.ok.inj (Prod.mk.inj hout).1
    have hcontinues : ∀ (token : TokenId) (captured : Unit) control captured',
        (pure .Continue : Effect Unit EngineError DecodeControl) captured =
          (.ok control, captured') → control = .Continue := by
      intro _ _ control _ hcall
      exact (Outcome.ok.inj (Prod.mk.inj hcall).1).symm
    exact ⟨hvalid, decoder, hnew, _, (generates_of_continue hcontinues hne hrun).1, h⟩
  · rintro ⟨hvalid, decoder, hnew, tokens, hgenerates, hcompleted⟩
    have hne := (validateGenerationRequest_eq_ok hvalid).1
    have hpure : ∀ (token : TokenId) (captured : Unit),
        (fun _ => pure .Continue : TokenId → Effect Unit EngineError DecodeControl) token captured =
          (.ok .Continue, captured) := fun _ _ => rfl
    obtain ⟨output, final, ⟨⟩, hrun, rfl⟩ := generates_returned hne
      (fun hne => ⟨(), answers_of_continue hpure () hne⟩) hgenerates
    refine ⟨(), hvalid, ?_⟩
    rw [hnew, Outcome.ok_bind, generateUntil, Effect.bind_ok hrun]
    exact hcompleted

/-- What `generate_incremental` starts its loop on. -/
def fresh : IncrementalDecoder × List TokenDelta := (Tokenizer.incrementalDecoder true, [])

/-- The result of `generate_incremental`, from that of its loop. -/
def finish (model : LoadedModel δ Λ) (prompt : List TokenId) (output : EngineResult DecodeOutput) :
    EngineResult IncrementalGeneration := do
  let output ← output
  if output.stopReason = .Consumer then .ok .Cancelled
  else do
    let completion ← model.completedGeneration prompt output.tokenIds
    .ok (.Completed completion)

theorem generateIncremental_started {prompt : List TokenId} {decoder : δ}
    (hvalid : validateGenerationRequest model.pass.contextLength prompt maxNew = .ok ())
    (hnew : model.pass.new = .ok decoder) (consumer : List TokenDelta → GenerationControl) :
    model.generateIncremental prompt maxNew consumer =
      let drive := model.pass.generateUntilWithCallback prompt maxNew model.isEog
        (model.onToken consumer) (decoder, fresh)
      ⟨model.finish prompt drive.1, drive.2.2.2, model.pass.position drive.2.1⟩ := by
  unfold generateIncremental
  rw [hvalid, Outcome.ok_bind, hnew]
  rfl

/-- A request that is refused, or finds no decoder, fails alike in every call. -/
theorem not_started {prompt : List TokenId}
    (h : ¬∃ decoder, validateGenerationRequest model.pass.contextLength prompt maxNew = .ok () ∧
      model.pass.new = .ok decoder) :
    ∃ result, (∀ consumer, model.generateIncremental prompt maxNew consumer = ⟨result, [], 0⟩) ∧
      (∀ generation, result ≠ .ok generation) ∧
      ∀ completion, model.generate prompt maxNew ≠ .ok completion := by
  have hgenerate : ∀ completion, model.generate prompt maxNew ≠ .ok completion := by
    intro completion hok
    obtain ⟨hvalid, decoder, hnew, -⟩ := generate_eq_ok.mp hok
    exact h ⟨decoder, hvalid, hnew⟩
  unfold generateIncremental
  rcases hstart : (do
      validateGenerationRequest model.pass.contextLength prompt maxNew
      model.pass.new : EngineResult δ) with decoder | e | k
  · obtain ⟨⟨⟩, hvalid, hnew⟩ := Outcome.bind_eq_ok.mp hstart
    exact absurd ⟨decoder, hvalid, hnew⟩ h
  · exact ⟨.err e, fun _ => rfl, fun _ => by simp, hgenerate⟩
  · exact ⟨.fault k, fun _ => rfl, fun _ => by simp, hgenerate⟩

theorem fresh_synced : (fresh.1).Synced model.tokenizer :=
  Tokenizer.decode_nil model.tokenizer true

theorem onToken_neverCancels (token : TokenId)
    (captured : IncrementalDecoder × List TokenDelta) (control : DecodeControl)
    (captured' : IncrementalDecoder × List TokenDelta)
    (h : model.onToken neverCancels token captured = (.ok control, captured')) :
    control = .Continue := by
  rw [← Prod.eta captured, onToken_apply] at h
  rcases hpush : captured.1.push model.tokenizer token with ⟨text | e | k, next⟩
  · rw [hpush] at h
    exact (Outcome.ok.inj (Prod.mk.inj h).1).symm
  · rw [hpush] at h
    exact absurd (Prod.mk.inj h).1 (by simp)
  · rw [hpush] at h
    exact absurd (Prod.mk.inj h).1 (by simp)

theorem completedGeneration_eq_ok {prompt tokens : List TokenId} {completion : Completion}
    (h : model.completedGeneration prompt tokens = .ok completion) :
    completion.generatedTokens = tokens ∧
      model.tokenizer.decode tokens true = .ok completion.text := by
  obtain ⟨text, htext, h⟩ := Outcome.bind_eq_ok.mp h
  obtain rfl := Outcome.ok.inj h
  exact ⟨rfl, htext⟩

theorem finish_eq_ok {prompt : List TokenId} {output : EngineResult DecodeOutput}
    {generation : IncrementalGeneration} (h : model.finish prompt output = .ok generation) :
    ∃ out, output = .ok out ∧
      (out.stopReason = .Consumer ∧ generation = .Cancelled ∨
        out.stopReason ≠ .Consumer ∧ ∃ completion,
          model.completedGeneration prompt out.tokenIds = .ok completion ∧
          generation = .Completed completion) := by
  obtain ⟨out, hout, hrest⟩ := Outcome.bind_eq_ok.mp h
  refine ⟨out, hout, ?_⟩
  split at hrest
  · rename_i hconsumer
    exact Or.inl ⟨hconsumer, (Outcome.ok.inj hrest).symm⟩
  · rename_i hother
    obtain ⟨completion, hcompletion, hrest⟩ := Outcome.bind_eq_ok.mp hrest
    exact Or.inr ⟨hother, completion, hcompletion, (Outcome.ok.inj hrest).symm⟩

/-- With a consumer that never cancels, an incremental call returns what `generate`
returns, and has reported it token by token. -/
theorem neverCancels_agrees {prompt : List TokenId} {completion : Completion}
    (h : model.generate prompt maxNew = .ok completion) :
    let full := model.generateIncremental prompt maxNew neverCancels
    full.result = .ok (.Completed completion) ∧
      full.received.map (·.tokenId) = completion.generatedTokens ∧
      (full.received.map (·.text)).flatten = completion.text := by
  obtain ⟨hvalid, decoder, hnew, tokens, hgenerates, hcompleted⟩ := generate_eq_ok.mp h
  have hne := (validateGenerationRequest_eq_ok hvalid).1
  obtain ⟨htokens, htext⟩ := completedGeneration_eq_ok hcompleted
  obtain ⟨output, final, captured', hrun, rfl⟩ := generates_returned hne
    (fun hne => @answers_neverCancels _ _ model fresh _ _ fresh_synced hne htext) hgenerates
  obtain ⟨-, hreason⟩ := generates_of_continue onToken_neverCancels hne hrun
  rw [generateIncremental_started hvalid hnew, hrun]
  dsimp only
  refine ⟨?_, ?_⟩
  · rw [finish, Outcome.ok_bind, if_neg hreason, hcompleted, Outcome.ok_bind]
  -- what was received spells what was generated
  rcases (generateUntilWithCallback_eq_ok hne).mp hrun with ⟨-, hout, -, rfl⟩ |
    ⟨-, last, logits, primed, emitted, control, -, -, -, -, hanswers, hout, -⟩
  · rw [hout] at htokens htext
    have hempty : [] = completion.text :=
      Outcome.ok.inj ((Tokenizer.decode_nil model.tokenizer true).symm.trans htext)
    rw [htokens, ← hempty]
    exact ⟨rfl, rfl⟩
  · obtain ⟨deltas, hreceived, hids, hdecode⟩ := answers_received fresh_synced hanswers
    have hemitted : output.tokenIds = emitted := by rw [hout]
    change captured'.2 = [] ++ deltas at hreceived
    rw [hreceived, List.nil_append, htokens, hemitted]
    change model.tokenizer.decode ([] ++ emitted) true = .ok ([] ++ _) at hdecode
    rw [List.nil_append, List.nil_append, ← hemitted, htext] at hdecode
    exact ⟨hids, (Outcome.ok.inj hdecode).symm⟩

/-- And it returns nothing else. -/
theorem agrees_neverCancels {prompt : List TokenId} {generation : IncrementalGeneration}
    (h : (model.generateIncremental prompt maxNew neverCancels).result = .ok generation) :
    ∃ completion, model.generate prompt maxNew = .ok completion ∧
      generation = .Completed completion := by
  by_cases hstart : ∃ decoder,
      validateGenerationRequest model.pass.contextLength prompt maxNew = .ok () ∧
        model.pass.new = .ok decoder
  · obtain ⟨decoder, hvalid, hnew⟩ := hstart
    have hne := (validateGenerationRequest_eq_ok hvalid).1
    rw [generateIncremental_started hvalid hnew] at h
    obtain ⟨output, hout, hcases⟩ := finish_eq_ok h
    obtain ⟨hgenerates, hreason⟩ :=
      generates_of_continue onToken_neverCancels hne (Prod.ext hout rfl)
    rcases hcases with ⟨hconsumer, -⟩ | ⟨-, completion, hcompleted, rfl⟩
    · exact absurd hconsumer hreason
    · exact ⟨completion, generate_eq_ok.mpr
        ⟨hvalid, decoder, hnew, output.tokenIds, hgenerates, hcompleted⟩, rfl⟩
  · obtain ⟨result, hall, hnot, -⟩ := not_started hstart
    rw [hall] at h
    exact absurd h (hnot generation)

/-- A smaller budget generates a prefix. -/
theorem generate_smaller {prompt : List TokenId} {smaller : Nat} {completion : Completion}
    (hle : smaller ≤ maxNew) (h : model.generate prompt maxNew = .ok completion) :
    ∃ shorter, model.generate prompt smaller = .ok shorter ∧
      shorter.generatedTokens <+: completion.generatedTokens := by
  obtain ⟨hvalid, decoder, hnew, tokens, hgenerates, hcompleted⟩ := generate_eq_ok.mp h
  obtain ⟨htokens, htext⟩ := completedGeneration_eq_ok hcompleted
  -- the tokens of the smaller budget
  have hprefix : ∃ front, model.Generates prompt decoder smaller front ∧ front <+: tokens := by
    rcases Nat.eq_zero_or_pos smaller with rfl | hpos
    · exact ⟨[], Or.inl ⟨rfl, rfl⟩, List.nil_prefix⟩
    rcases hgenerates with ⟨rfl, -⟩ |
      ⟨hbudget, last, logits, primed, final, hlast, hprime, hemits, hlen, hlength⟩
    · omega
    rcases Nat.lt_or_ge smaller tokens.length with hlt | hge
    · obtain ⟨final', hemits', hgoes⟩ := hemits.take hpos hlt
      have hfront : (tokens.take smaller).length = smaller := by
        rw [List.length_take]
        omega
      exact ⟨tokens.take smaller, Or.inr ⟨by omega, last, logits, primed, final', hlast, hprime,
        hemits', by omega, fun _ => hfront⟩, List.take_prefix _ _⟩
    · refine ⟨tokens, Or.inr ⟨by omega, last, logits, primed, final, hlast, hprime, hemits, hge,
        ?_⟩, List.prefix_refl _⟩
      intro hgoes
      have := hlength hgoes
      omega
  obtain ⟨front, hfront, rest, rfl⟩ := hprefix
  obtain ⟨shown, hshown, -⟩ :=
    Tokenizer.decode_prefixMonotone model.tokenizer true front rest completion.text htext
  dsimp only at hshown
  rcases hshorter : model.completedGeneration prompt front with shorter | e | k
  · refine ⟨shorter, generate_eq_ok.mpr ⟨validateGenerationRequest_mono hle hvalid, decoder, hnew,
      front, hfront, hshorter⟩, ?_⟩
    rw [htokens, (completedGeneration_eq_ok hshorter).1]
    exact List.prefix_append front rest
  · rw [completedGeneration, hshown] at hshorter
    exact absurd hshorter (by simp)
  · rw [completedGeneration, hshown] at hshorter
    exact absurd hshorter (by simp)

/-- A consumer of an incremental call against one that never cancels. -/
theorem incremental_consumer (prompt : List TokenId)
    (consumer : List TokenDelta → GenerationControl) :
    let full := model.generateIncremental prompt maxNew neverCancels
    let run := model.generateIncremental prompt maxNew consumer
    (run = full ∧ ∀ i, 0 < i → i ≤ full.received.length →
      consumer (full.received.take i) = .Continue) ∨
    ∃ k, 0 < k ∧ k ≤ full.received.length ∧
      (∀ i, 0 < i → i < k → consumer (full.received.take i) = .Continue) ∧
      consumer (full.received.take k) = .Cancel ∧
      run.received = full.received.take k ∧ run.forwardPasses + 1 = prompt.length + k ∧
      (run.result = .ok .Cancelled ∨ run.result = full.result) := by
  intro full run
  -- nothing is received where the loop is not reached
  have hnothing : run = full → full.received = [] →
      run = full ∧ ∀ i, 0 < i → i ≤ full.received.length →
        consumer (full.received.take i) = .Continue := by
    intro hsame hempty
    refine ⟨hsame, ?_⟩
    intro i hi hle
    rw [hempty, List.length_nil] at hle
    omega
  by_cases hstart : ∃ decoder,
      validateGenerationRequest model.pass.contextLength prompt maxNew = .ok () ∧
        model.pass.new = .ok decoder
  · obtain ⟨decoder, hvalid, hnew⟩ := hstart
    have hne := (validateGenerationRequest_eq_ok hvalid).1
    have hfull : full = _ := generateIncremental_started hvalid hnew neverCancels
    have hrun : run = _ := generateIncremental_started hvalid hnew consumer
    rcases Nat.eq_zero_or_pos maxNew with rfl | hpos
    · rw [generateUntilWithCallback_zero hne] at hfull hrun
      exact Or.inl (hnothing (hrun.trans hfull.symm) (by rw [hfull]; rfl))
    obtain ⟨last, hlast⟩ := Option.ne_none_iff_exists'.mp (mt List.getLast?_eq_none_iff.mp hne)
    rw [generateUntilWithCallback_eq hlast (by omega)] at hfull hrun
    rcases hprime : model.pass.prime prompt last decoder with ⟨logits | e | k, primed⟩
    case err | fault =>
      rw [hprime] at hfull hrun
      exact Or.inl (hnothing (hrun.trans hfull.symm) (by rw [hfull]; rfl))
    rw [hprime] at hfull hrun
    dsimp only at hfull hrun
    have hposition := prime_position hlast hprime
    rw [model.pass.new_position decoder hnew, Nat.zero_add] at hposition
    rcases @decodeLoop_consumer _ _ model maxNew model.isEog consumer maxNew logits [] primed
      fresh with
      ⟨hsame, hcontinued⟩ | ⟨k, hk⟩
    · rw [hsame, ← hfull] at hrun
      refine Or.inl ⟨hrun, ?_⟩
      rw [hfull]
      exact hcontinued
    · refine Or.inr ⟨k, ?_⟩
      rw [hfull, hrun]
      have hpasses := hk.passes
      change _ + 0 + 1 = _ at hpasses
      refine ⟨hk.after, hk.within, hk.continued, hk.cancelled, hk.received, ?_, ?_⟩
      · show model.pass.position _ + 1 = _
        omega
      obtain ⟨output, hout, hreason⟩ := hk.result
      rcases hreason with hconsumer | ⟨-, hfullout⟩
      · refine Or.inl ?_
        show model.finish prompt _ = _
        rw [hout, finish, Outcome.ok_bind, if_pos hconsumer]
      · refine Or.inr ?_
        show model.finish prompt _ = model.finish prompt _
        rw [hout, hfullout]
  · obtain ⟨result, hall, -, -⟩ := not_started hstart
    have hfull : full = _ := hall neverCancels
    exact Or.inl (hnothing ((hall consumer).trans hfull.symm) (by rw [hfull]))

/-- Where an accepted request fails, blocking or incremental. -/
theorem request_failure {prompt : List TokenId} {consumer : List TokenDelta → GenerationControl}
    (hvalid : validateGenerationRequest model.pass.contextLength prompt maxNew = .ok ())
    (h : (model.generate prompt maxNew).failure = some stop ∨
      (model.generateIncremental prompt maxNew consumer).result.failure = some stop) :
    FailsIn model stop := by
  obtain ⟨hne, -, hfits⟩ := validateGenerationRequest_eq_ok hvalid
  have hcompleted : ∀ tokens,
      (model.completedGeneration prompt tokens).failure = some stop → FailsIn model stop := by
    intro tokens h
    have hsafe := Tokenizer.decode_safe model.tokenizer tokens true
    rcases Outcome.failure_bind.mp h with h | ⟨text, -, h⟩
    · rcases hdecode : model.tokenizer.decode tokens true with text | e | k
      · rw [hdecode] at h
        exact absurd h (by simp)
      · rw [hdecode] at h
        obtain rfl := Option.some.inj h
        exact .decode (hsafe.2 e hdecode)
      · exact absurd hdecode (hsafe.1 k)
    · exact absurd h (by simp)
  rcases h with h | h
  · -- `generate`: its callback holds nothing and cannot fail
    unfold generate at h
    rw [hvalid, Outcome.ok_bind] at h
    rcases Outcome.failure_bind.mp h with h | ⟨decoder, hnew, h⟩
    · exact .new h
    rcases Outcome.failure_bind.mp h with h | ⟨tokens, -, h⟩
    · unfold generateUntil at h
      rw [Effect.run_bind] at h
      have hloop : (model.pass.generateUntilWithCallback prompt maxNew model.isEog
          (fun _ => (pure .Continue : Effect Unit EngineError DecodeControl))
          (decoder, ())).1.failure = some stop → FailsIn model stop :=
        generateUntilWithCallback_failure (I := fun _ => True) (fun _ _ _ _ _ _ => trivial)
          (fun _ _ _ h => absurd h (by simp)) hne (model.pass.new_position decoder hnew) hfits
          trivial
      rcases hrun : model.pass.generateUntilWithCallback prompt maxNew model.isEog
        (fun _ => (pure .Continue : Effect Unit EngineError DecodeControl)) (decoder, ()) with
        ⟨output | e | k, final⟩
      · rw [hrun] at h
        exact absurd h (by simp)
      · rw [hrun] at h hloop
        exact hloop h
      · rw [hrun] at h hloop
        exact hloop h
    · exact hcompleted tokens h
  · -- `generate_incremental`: its callback pushes each token, and stays in step with `decode`
    rcases hnew : model.pass.new with decoder | e | k
    · rw [generateIncremental_started hvalid hnew] at h
      rcases Outcome.failure_bind.mp h with h | ⟨output, -, h⟩
      · refine generateUntilWithCallback_failure (I := fun captured => captured.1.Synced model.tokenizer) ?_ ?_
          hne (model.pass.new_position decoder hnew) hfits fresh_synced h
        · intro token captured control captured' hsync hcall
          rw [← Prod.eta captured, onToken_apply] at hcall
          rcases hpush : captured.1.push model.tokenizer token with ⟨text | e | k, next⟩
          case err | fault =>
            rw [hpush] at hcall
            exact absurd (Prod.mk.inj hcall).1 (by simp)
          rw [hpush] at hcall
          obtain ⟨-, rfl⟩ := Prod.mk.inj hcall
          exact IncrementalDecoder.push_synced hpush
        · intro token captured hsync h
          rw [← Prod.eta captured, onToken_apply] at h
          rcases IncrementalDecoder.push_cases hsync token with ⟨delta, hpush⟩ | ⟨e, he, hpush⟩
          · rw [hpush] at h
            exact absurd h (by simp)
          · rw [hpush] at h
            obtain rfl := Option.some.inj h
            exact .decode he
      · split at h
        · exact absurd h (by simp)
        · rcases Outcome.failure_bind.mp h with h | ⟨completion, -, h⟩
          · exact hcompleted _ h
          · exact absurd h (by simp)
    · unfold generateIncremental at h
      rw [hvalid, Outcome.ok_bind, hnew] at h
      exact .new (by rw [hnew]; exact h)
    · unfold generateIncremental at h
      rw [hvalid, Outcome.ok_bind, hnew] at h
      exact .new (by rw [hnew]; exact h)

/-- What a caller may rely on, for one model, prompt and budget. `full` is the
incremental call whose consumer never cancels. -/
structure GenerationContract (model : LoadedModel δ Λ) (prompt : List TokenId) (maxNew : Nat)
    (full : IncrementalRun) : Prop where
  /-- it returns what `generate` returns, or neither returns -/
  agrees : ∀ generation, full.result = .ok generation ↔
    ∃ completion, model.generate prompt maxNew = .ok completion ∧
      generation = .Completed completion
  /-- with a budget, from the logits of the prompt on the argmax is taken and fed back, until
  it ends the text or the budget is used up -/
  emits : ∀ completion, model.generate prompt maxNew = .ok completion →
    ∃ decoder, model.pass.new = .ok decoder ∧
      model.Generates prompt decoder maxNew completion.generatedTokens
  /-- one callback per generated token, in order -/
  tokens : ∀ completion, model.generate prompt maxNew = .ok completion →
    full.received.map (·.tokenId) = completion.generatedTokens
  /-- the deltas spell the text -/
  text : ∀ completion, model.generate prompt maxNew = .ok completion →
    (full.received.map (·.text)).flatten = completion.text
  /-- a consumer never cancels and sees the full run, or it first cancels at its
  `k`-th token: it has the first `k` tokens, the passes made are those before the
  cancellation, and the call is cancelled, or the full run ended at that token too -/
  consumer : ∀ consumer, let run := model.generateIncremental prompt maxNew consumer
    (run = full ∧ ∀ i, 0 < i → i ≤ full.received.length →
      consumer (full.received.take i) = .Continue) ∨
    ∃ k, 0 < k ∧ k ≤ full.received.length ∧
      (∀ i, 0 < i → i < k → consumer (full.received.take i) = .Continue) ∧
      consumer (full.received.take k) = .Cancel ∧
      run.received = full.received.take k ∧ run.forwardPasses + 1 = prompt.length + k ∧
      (run.result = .ok .Cancelled ∨ run.result = full.result)
  /-- a smaller budget generates a prefix -/
  budget : ∀ smaller ≤ maxNew, ∀ completion, model.generate prompt maxNew = .ok completion →
    ∃ shorter, model.generate prompt smaller = .ok shorter ∧
      shorter.generatedTokens <+: completion.generatedTokens
  /-- a request that is accepted fails only where a computation of the model does, at
  a free position of the cache, and never because the cache is full -/
  failure : validateGenerationRequest model.pass.contextLength prompt maxNew = .ok () →
    ∀ consumer stop, (model.generate prompt maxNew).failure = some stop ∨
      (model.generateIncremental prompt maxNew consumer).result.failure = some stop →
      FailsIn model stop

/-- **Generation.** For every model, prompt and budget, blocking and incremental
generation keep the contract. -/
theorem generate_incremental_agree (model : LoadedModel δ Λ) (prompt : List TokenId)
    (maxNew : Nat) :
    GenerationContract model prompt maxNew
      (model.generateIncremental prompt maxNew neverCancels) where
  agrees := by
    intro generation
    constructor
    · exact agrees_neverCancels
    · rintro ⟨completion, hcompletion, rfl⟩
      exact (neverCancels_agrees hcompletion).1
  emits := fun _ h => by
    obtain ⟨-, decoder, hnew, tokens, hgenerates, hcompleted⟩ := generate_eq_ok.mp h
    rw [(completedGeneration_eq_ok hcompleted).1]
    exact ⟨decoder, hnew, hgenerates⟩
  tokens := fun _ h => (neverCancels_agrees h).2.1
  text := fun _ h => (neverCancels_agrees h).2.2
  consumer := incremental_consumer prompt
  budget := fun _ hle _ h => generate_smaller hle h
  failure := fun hvalid _ _ h => request_failure hvalid h

end LoadedModel

end CamelidEnterprise

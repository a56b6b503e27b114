import CamelidEnterprise.Engine.EncodeErrors
import CamelidEnterprise.Engine.RuntimeRun

/-!
# Camelid Enterprise — where a generation stops

A request that was accepted makes a decoder, passes its prompt through it, and then
takes the argmax and feeds it back until it is done. `GenerationStops` follows that path
to the first computation that does not return. A blocking call stops exactly there, or
in the decoding of its text; an incremental call stops there too, unless its consumer
cancels or a token cannot be spelled before.

* `generate_stops`, `generate_stopped` — a blocking call and its path.
* `incremental_stopped` — an incremental call stops where the path does.
-/

namespace CamelidEnterprise

open Foundation Server

variable {δ Λ κ : Type}

-- ---------------------------------------------------------------------------
-- The loop
-- ---------------------------------------------------------------------------

namespace ForwardPass

/-- With so many tokens left, decoding on from these logits comes to a computation that
stops. -/
inductive StopsIn (pass : ForwardPass δ Λ) (shouldStop : TokenId → Bool)
    (stop : EngineError ⊕ Fault) : Nat → Λ → δ → Prop
  | argmax {left logits decoder} (h : (pass.argmax logits).failure = some stop) :
      StopsIn pass shouldStop stop (left + 1) logits decoder
  | forward {left logits decoder token} (hnext : pass.argmax logits = .ok token)
      (hgoes : shouldStop token = false) (hleft : left ≠ 0)
      (h : (pass.forwardLogits token decoder).1.failure = some stop) :
      StopsIn pass shouldStop stop (left + 1) logits decoder
  | later {left logits decoder token logits' decoder'} (hnext : pass.argmax logits = .ok token)
      (hgoes : shouldStop token = false)
      (hforward : pass.forwardLogits token decoder = (.ok logits', decoder'))
      (hrest : StopsIn pass shouldStop stop left logits' decoder') :
      StopsIn pass shouldStop stop (left + 1) logits decoder

variable {pass : ForwardPass δ Λ} {shouldStop : TokenId → Bool} {stop : EngineError ⊕ Fault}
  {maxNew : Nat} {onToken : TokenId → Effect κ EngineError DecodeControl}

/-- A stop that is not the callback's own is on the path. By induction on the tokens left. -/
theorem decodeLoop_stopped
    (hcallback : ∀ token captured, (onToken token captured).1.failure ≠ some stop)
    {fuel : Nat} {logits : Λ} {generated : List TokenId} {decoder : δ} {captured : κ}
    (hpos : 0 < fuel) (hfuel : generated.length + fuel = maxNew)
    (h : (pass.decodeLoop maxNew shouldStop onToken fuel logits generated
      (decoder, captured)).1.failure = some stop) :
    pass.StopsIn shouldStop stop fuel logits decoder := by
  induction fuel generalizing logits generated decoder captured with
  | zero => exact absurd hpos (Nat.lt_irrefl 0)
  | succ fuel ih =>
    rw [decodeLoop_succ] at h
    rcases hnext : pass.argmax logits with next | e | k
    case err | fault =>
      rw [hnext] at h
      exact .argmax (by rw [hnext]; exact h)
    rw [hnext] at h
    dsimp only at h
    have hcall := hcallback next captured
    rcases hanswer : onToken next captured with ⟨control | e | k, captured'⟩
    case err | fault =>
      rw [hanswer] at h hcall
      exact absurd h hcall
    rw [hanswer] at h
    dsimp only at h
    split at h
    · exact absurd h (by simp)
    rename_i hgoes
    have hgoes : shouldStop next = false := Bool.not_eq_true _ ▸ hgoes
    split at h
    · exact absurd h (by simp)
    split at h
    · exact absurd h (by simp)
    rename_i hbudget
    rw [List.length_append, List.length_singleton] at hbudget
    have hleft : fuel ≠ 0 := by omega
    rcases hforward : pass.forwardLogits next decoder with ⟨logits' | e | k, decoder'⟩
    case err | fault =>
      rw [hforward] at h
      exact .forward hnext hgoes hleft (by rw [hforward]; exact h)
    rw [hforward] at h
    refine .later hnext hgoes hforward (ih (Nat.pos_of_ne_zero hleft) ?_ h)
    rw [List.length_append, List.length_singleton]
    omega

/-- With a callback that always continues, the loop stops where its path does. -/
theorem decodeLoop_stops
    (hcontinues : ∀ token captured, onToken token captured = (.ok .Continue, captured))
    {fuel : Nat} {logits : Λ} {generated : List TokenId} {decoder : δ} {captured : κ}
    (hfuel : generated.length + fuel = maxNew) (h : pass.StopsIn shouldStop stop fuel logits decoder) :
    (pass.decodeLoop maxNew shouldStop onToken fuel logits generated
      (decoder, captured)).1.failure = some stop := by
  induction h generalizing generated with
  | argmax hargmax =>
    rename_i left logits decoder
    rw [decodeLoop_succ]
    rcases hnext : pass.argmax logits with next | e | k
    · rw [hnext] at hargmax
      exact absurd hargmax (by simp)
    · rwa [hnext] at hargmax
    · rwa [hnext] at hargmax
  | forward hnext hgoes hleft hfailed =>
    rename_i left logits decoder token
    have hbudget : (generated ++ [token]).length ≠ maxNew := by
      rw [List.length_append, List.length_singleton]
      omega
    rw [decodeLoop_succ, hnext]
    dsimp only
    rw [hcontinues]
    dsimp only
    rw [if_neg (by simp [hgoes]), if_neg (by simp), if_neg hbudget]
    rcases hforward : pass.forwardLogits token decoder with ⟨logits' | e | k, decoder'⟩
    · rw [hforward] at hfailed
      exact absurd hfailed (by simp)
    · rwa [hforward] at hfailed
    · rwa [hforward] at hfailed
  | later hnext hgoes hforward hrest ih =>
    rename_i left logits decoder token logits' decoder'
    -- what comes later stops, so a token is left for it
    have hleft : left ≠ 0 := by
      rintro rfl
      cases hrest
    have hbudget : (generated ++ [token]).length ≠ maxNew := by
      rw [List.length_append, List.length_singleton]
      omega
    rw [decodeLoop_succ, hnext]
    dsimp only
    rw [hcontinues]
    dsimp only
    rw [if_neg (by simp [hgoes]), if_neg (by simp), if_neg hbudget, hforward]
    refine ih ?_
    rw [List.length_append, List.length_singleton]
    omega

end ForwardPass

-- ---------------------------------------------------------------------------
-- The call
-- ---------------------------------------------------------------------------

namespace LoadedModel

open ForwardPass

/-- The path of a generation comes to a computation that stops. -/
inductive GenerationStops (model : LoadedModel δ Λ) (prompt : List TokenId) (maxNew : Nat)
    (stop : EngineError ⊕ Fault) : Prop
  | new (h : model.pass.new.failure = some stop)
  | prompt {decoder last} (hnew : model.pass.new = .ok decoder) (hbudget : maxNew ≠ 0)
      (hlast : prompt.getLast? = some last)
      (h : (model.pass.prime prompt last decoder).1.failure = some stop)
  | loop {decoder last logits primed} (hnew : model.pass.new = .ok decoder)
      (hbudget : maxNew ≠ 0) (hlast : prompt.getLast? = some last)
      (hprime : model.pass.prime prompt last decoder = (.ok logits, primed))
      (h : model.pass.StopsIn model.isEog stop maxNew logits primed)

variable {model : LoadedModel δ Λ} {prompt : List TokenId} {maxNew : Nat}
  {stop : EngineError ⊕ Fault}
  {onToken : TokenId → Effect κ EngineError DecodeControl}

theorem generateUntilWithCallback_stopped
    (hcallback : ∀ token captured, (onToken token captured).1.failure ≠ some stop)
    (hne : prompt ≠ []) {decoder : δ} (hnew : model.pass.new = .ok decoder) {captured : κ}
    (h : (model.pass.generateUntilWithCallback prompt maxNew model.isEog onToken
      (decoder, captured)).1.failure = some stop) :
    model.GenerationStops prompt maxNew stop := by
  rcases Nat.eq_zero_or_pos maxNew with rfl | hpos
  · rw [generateUntilWithCallback_zero hne] at h
    exact absurd h (by simp)
  have hbudget : maxNew ≠ 0 := by omega
  obtain ⟨last, hlast⟩ := Option.ne_none_iff_exists'.mp (mt List.getLast?_eq_none_iff.mp hne)
  rw [generateUntilWithCallback_eq hlast hbudget] at h
  rcases hprime : model.pass.prime prompt last decoder with ⟨logits | e | k, primed⟩
  case err | fault =>
    rw [hprime] at h
    exact .prompt hnew hbudget hlast (by rw [hprime]; exact h)
  rw [hprime] at h
  exact .loop hnew hbudget hlast hprime
    (decodeLoop_stopped hcallback hpos (by rw [List.length_nil, Nat.zero_add]) h)

/-- The callback of `generate_until`. -/
def alwaysContinues (_ : TokenId) : Effect Unit EngineError DecodeControl := pure .Continue

theorem generateUntil_failure (decoder : δ) :
    (model.pass.generateUntil prompt maxNew model.isEog (decoder, ())).1.failure =
      (model.pass.generateUntilWithCallback prompt maxNew model.isEog alwaysContinues
        (decoder, ())).1.failure := by
  change ((model.pass.generateUntilWithCallback prompt maxNew model.isEog alwaysContinues >>=
    fun output => pure output.tokenIds) (decoder, ())).1.failure = _
  rw [Effect.run_bind]
  rcases model.pass.generateUntilWithCallback prompt maxNew model.isEog alwaysContinues
    (decoder, ()) with ⟨output | e | k, final⟩
  · rfl
  · rfl
  · rfl

/-- A blocking call stops where its path does. -/
theorem generate_stops
    (hvalid : validateGenerationRequest model.pass.contextLength prompt maxNew = .ok ())
    (h : model.GenerationStops prompt maxNew stop) :
    (model.generate prompt maxNew).failure = some stop := by
  unfold generate
  rw [hvalid, Outcome.ok_bind]
  -- a path that begins with a decoder runs through the loops
  have hrun : ∀ decoder, model.pass.new = .ok decoder →
      (model.pass.generateUntilWithCallback prompt maxNew model.isEog alwaysContinues
        (decoder, ())).1.failure = some stop →
      (model.pass.new >>= fun decoder =>
        (model.pass.generateUntil prompt maxNew model.isEog (decoder, ())).1 >>= fun tokens =>
          model.completedGeneration prompt tokens).failure = some stop := by
    intro decoder hnew hdrive
    rw [hnew, Outcome.ok_bind]
    refine Outcome.failure_bind.mpr (Or.inl ?_)
    rwa [generateUntil_failure]
  cases h with
  | new hfailed => exact Outcome.failure_bind.mpr (Or.inl hfailed)
  | prompt hnew hbudget hlast hfailed =>
    rename_i decoder last
    refine hrun decoder hnew ?_
    rw [generateUntilWithCallback_eq hlast hbudget]
    rcases hprime : model.pass.prime prompt last decoder with ⟨logits | e | k, primed⟩
    · rw [hprime] at hfailed
      exact absurd hfailed (by simp)
    · rwa [hprime] at hfailed
    · rwa [hprime] at hfailed
  | loop hnew hbudget hlast hprime hloop =>
    rename_i decoder last logits primed
    refine hrun decoder hnew ?_
    rw [generateUntilWithCallback_eq hlast hbudget, hprime]
    exact decodeLoop_stops (fun _ _ => rfl) (by rw [List.length_nil, Nat.zero_add]) hloop

-- ---------------------------------------------------------------------------
-- Stops that are not the tokenizer's
-- ---------------------------------------------------------------------------

/-- The tokenizer does not stop so: it has no panic, and its errors are about its
metadata. -/
def NotTokenizers (stop : EngineError ⊕ Fault) : Prop :=
  ∀ e, stop = .inl e → ¬ Tokenizer.MetadataError e

theorem decode_failure (hstop : NotTokenizers stop) (tokenizer : Tokenizer) (ids : List TokenId)
    (removeSpecial : Bool) : (tokenizer.decode ids removeSpecial).failure ≠ some stop := by
  have hsafe := Tokenizer.decode_safe tokenizer ids removeSpecial
  intro h
  rcases hdecode : tokenizer.decode ids removeSpecial with text | e | k
  · rw [hdecode] at h
    exact absurd h (by simp)
  · rw [hdecode] at h
    refine hstop e (Option.some.inj h).symm ?_
    rcases hsafe.2 e hdecode with ⟨id, rfl⟩ | ⟨text, ch, rfl⟩
    · exact ⟨_, rfl⟩
    · exact ⟨_, rfl⟩
  · exact hsafe.1 k hdecode

theorem completedGeneration_failure (hstop : NotTokenizers stop) (tokens : List TokenId) :
    (model.completedGeneration prompt tokens).failure ≠ some stop := by
  intro h
  rcases Outcome.failure_bind.mp h with h | ⟨text, -, h⟩
  · exact decode_failure hstop _ _ _ h
  · exact absurd h (by simp)

theorem push_failure (hstop : NotTokenizers stop) (tokenizer : Tokenizer) (token : TokenId)
    (decoder : IncrementalDecoder) : (decoder.push tokenizer token).1.failure ≠ some stop := by
  have hfailed := decode_failure hstop tokenizer (decoder.tokenIds ++ [token]) decoder.removeSpecial
  unfold IncrementalDecoder.push
  dsimp only
  rcases hdecode : tokenizer.decode (decoder.tokenIds ++ [token]) decoder.removeSpecial with
    decoded | e | k
  · dsimp only
    split
    · simp
    · intro h
      exact hstop _ (Option.some.inj h).symm ⟨_, rfl⟩
  · rwa [hdecode] at hfailed
  · rwa [hdecode] at hfailed

theorem onToken_failure (hstop : NotTokenizers stop) (consumer : List TokenDelta → GenerationControl)
    (token : TokenId) (captured : IncrementalDecoder × List TokenDelta) :
    (model.onToken consumer token captured).1.failure ≠ some stop := by
  have hfailed := push_failure hstop model.tokenizer token captured.1
  rw [← Prod.eta captured, onToken_apply]
  rcases hpush : captured.1.push model.tokenizer token with ⟨text | e | k, decoder⟩
  · simp
  · rwa [hpush] at hfailed
  · rwa [hpush] at hfailed

/-- A blocking call that stops, and not in the tokenizer, stops where its path does. -/
theorem generate_stopped (hstop : NotTokenizers stop)
    (hvalid : validateGenerationRequest model.pass.contextLength prompt maxNew = .ok ())
    (h : (model.generate prompt maxNew).failure = some stop) :
    model.GenerationStops prompt maxNew stop := by
  unfold generate at h
  rw [hvalid, Outcome.ok_bind] at h
  rcases Outcome.failure_bind.mp h with hfailed | ⟨decoder, hnew, h⟩
  · exact .new hfailed
  rcases Outcome.failure_bind.mp h with hdrive | ⟨tokens, -, h⟩
  · rw [generateUntil_failure] at hdrive
    exact generateUntilWithCallback_stopped (fun _ _ => by simp [alwaysContinues])
      (validateGenerationRequest_eq_ok hvalid).1 hnew hdrive
  · exact absurd h (completedGeneration_failure hstop tokens)

/-- So does an incremental call, whatever its consumer answers. -/
theorem incremental_stopped (hstop : NotTokenizers stop)
    (hvalid : validateGenerationRequest model.pass.contextLength prompt maxNew = .ok ())
    {consumer : List TokenDelta → GenerationControl}
    (h : (model.generateIncremental prompt maxNew consumer).result.failure = some stop) :
    model.GenerationStops prompt maxNew stop := by
  rcases hnew : model.pass.new with decoder | e | k
  case err | fault =>
    unfold generateIncremental at h
    rw [hvalid, Outcome.ok_bind, hnew] at h
    exact .new (by rw [hnew]; exact h)
  rw [generateIncremental_started hvalid hnew] at h
  rcases Outcome.failure_bind.mp h with hdrive | ⟨output, -, h⟩
  · exact generateUntilWithCallback_stopped (onToken_failure hstop consumer)
      (validateGenerationRequest_eq_ok hvalid).1 hnew hdrive
  split at h
  · exact absurd h (by simp)
  rcases Outcome.failure_bind.mp h with h | ⟨completion, -, h⟩
  · exact absurd h (completedGeneration_failure hstop _)
  · exact absurd h (by simp)

end LoadedModel

end CamelidEnterprise

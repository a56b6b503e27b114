import CamelidEnterprise.Foundation.Effect
import CamelidEnterprise.Engine.Decode
import CamelidEnterprise.Server.Backend

/-!
# Camelid Enterprise — greedy generation

The decode loops of `crates/engine-core/src/forward/compute.rs` and the model
lifecycle of `crates/engine-core/src/runtime.rs` over them: a prompt is prefilled
token by token, each step emits the argmax of the latest logits, and generation
ends at a token of the end-of-generation set, at the budget, or where the consumer
of an incremental call cancels.

The loops use a decoder only through its position and its forward pass, so they
are written over any `ForwardPass`; the dense decoder is one.

What is assumed, and where the representation is coarser than the source:

* a callback is an effect on what it holds, and may fail; it sees nothing of the decoder;
* the tokens of a generation are a list that grows, and the buffer they are kept in is
  allocated without a check.
-/

namespace CamelidEnterprise

open Foundation Server

-- ---------------------------------------------------------------------------
-- Decoders
-- ---------------------------------------------------------------------------

/-- The error of a forward pass that finds no free position. -/
def cacheFullError (contextLength : Nat) : EngineError :=
  .ShapeMismatch s!"KV cache is full at context length {contextLength}"

/-- A decoder, seen from the loops that drive it: `compute` is a forward pass at a
free position, which it uses up when it succeeds. -/
structure ForwardPass (δ Λ : Type) where
  contextLength : Nat
  new : EngineResult δ
  position : δ → Nat
  compute : Nat → Bool → Effect δ EngineError (Option Λ)
  argmax : Λ → EngineResult TokenId
  new_position : ∀ decoder, new = .ok decoder → position decoder = 0
  compute_position : ∀ decoder token computeLogits logits decoder',
    compute token computeLogits decoder = (.ok logits, decoder') →
    position decoder' = position decoder + 1
  compute_logits : ∀ decoder token logits decoder',
    compute token true decoder = (.ok logits, decoder') → logits.isSome = true

variable {δ Λ κ : Type}

/-- `Decoder::forward_token` -/
def ForwardPass.forwardToken (pass : ForwardPass δ Λ) (token : TokenId) (computeLogits : Bool) :
    Effect δ EngineError (Option Λ) := fun decoder =>
  if pass.position decoder < pass.contextLength then pass.compute token computeLogits decoder
  else (.err (cacheFullError pass.contextLength), decoder)

/-- `DecodeControl` -/
inductive DecodeControl
  | Continue
  | Stop
deriving DecidableEq, Repr

/-- `DecodeStopReason` -/
inductive DecodeStopReason
  | TokenPredicate
  | Length
  | Consumer
deriving DecidableEq, Repr

/-- `DecodeOutput` -/
structure DecodeOutput where
  tokenIds : List TokenId
  stopReason : DecodeStopReason
deriving DecidableEq, Repr

namespace ForwardPass

/-- The prefill loop over all prompt tokens but the last. -/
def prefill (pass : ForwardPass δ Λ) : List TokenId → Effect δ EngineError Unit
  | [] => pure ()
  | token :: tokens => do
    let _ ← pass.forwardToken token false
    pass.prefill tokens

/-- A forward pass with logits, and `expect` on them. -/
def forwardLogits (pass : ForwardPass δ Λ) (token : TokenId) : Effect δ EngineError Λ := do
  let logits ← pass.forwardToken token true
  .lift (Outcome.orPanic logits)

/-- The `loop` of `generate_until_with_callback`, which goes round at most
`max_new` times. The callback works on what it captured. -/
def decodeLoop (pass : ForwardPass δ Λ) (maxNew : Nat) (shouldStop : TokenId → Bool)
    (onToken : TokenId → Effect κ EngineError DecodeControl) :
    Nat → Λ → List TokenId → Effect (δ × κ) EngineError DecodeOutput
  | 0, _, _ => .lift (.fault .fuel)
  | fuel + 1, logits, generated => do
    let next ← .lift (pass.argmax logits)
    let generated := generated ++ [next]
    let consumerControl ← (onToken next).second
    if shouldStop next then pure ⟨generated, .TokenPredicate⟩
    else if consumerControl = .Stop then pure ⟨generated, .Consumer⟩
    else if generated.length = maxNew then pure ⟨generated, .Length⟩
    else do
      let logits ← (pass.forwardLogits next).first
      pass.decodeLoop maxNew shouldStop onToken fuel logits generated

/-- `generate_until_with_callback` -/
def generateUntilWithCallback (pass : ForwardPass δ Λ) (prompt : List TokenId) (maxNew : Nat)
    (shouldStop : TokenId → Bool) (onToken : TokenId → Effect κ EngineError DecodeControl) :
    Effect (δ × κ) EngineError DecodeOutput :=
  match prompt.getLast? with
  | none => .throw (.ShapeMismatch "generate requires a non-empty prompt")
  | some last =>
    if maxNew = 0 then pure ⟨[], .Length⟩
    else do
      let _ ← (pass.prefill prompt.dropLast).first
      let logits ← (pass.forwardLogits last).first
      pass.decodeLoop maxNew shouldStop onToken maxNew logits []

/-- `generate_until`: the callback captures nothing and always continues. -/
def generateUntil (pass : ForwardPass δ Λ) (prompt : List TokenId) (maxNew : Nat)
    (shouldStop : TokenId → Bool) : Effect (δ × Unit) EngineError (List TokenId) := do
  let output ← pass.generateUntilWithCallback prompt maxNew shouldStop fun _ => pure .Continue
  pure output.tokenIds

end ForwardPass

-- ---------------------------------------------------------------------------
-- The loaded model
-- ---------------------------------------------------------------------------

/-- `LoadedModel`: its tokenizer, and the decoder its config and weights make. -/
structure LoadedModel (δ Λ : Type) where
  tokenizer : Tokenizer
  pass : ForwardPass δ Λ

/-- `validate_generation_request`; `usize` has 64 bits. -/
def validateGenerationRequest (contextLength : Nat) (promptTokens : List TokenId)
    (maxNewTokens : Nat) : EngineResult Unit :=
  if promptTokens = [] then
    .err (.ShapeMismatch "generation requires a non-empty prompt")
  else if promptTokens.length + maxNewTokens ≥ 2 ^ 64 then
    .err (.ShapeMismatch "prompt and generation token counts overflow usize")
  else if promptTokens.length + maxNewTokens > contextLength then
    .err (.ShapeMismatch
      s!"prompt tokens ({promptTokens.length}) plus max new tokens ({maxNewTokens}) exceed context length {contextLength}")
  else .ok ()

/-- What an incremental call leaves behind: its result, the deltas its consumer
received, and how many forward passes its decoder completed. -/
structure IncrementalRun where
  result : EngineResult IncrementalGeneration
  received : List TokenDelta
  forwardPasses : Nat

namespace LoadedModel

/-- `completed_generation` -/
def completedGeneration (model : LoadedModel δ Λ) (promptTokens generatedTokens : List TokenId) :
    EngineResult Completion := do
  let finishReason :=
    match generatedTokens.getLast? with
    | some token =>
      if token ∈ model.tokenizer.special.eog then FinishReason.EndOfGeneration else .Length
    | none => .Length
  let text ← model.tokenizer.decode generatedTokens true
  .ok { promptTokens, generatedTokens, text, finishReason }

/-- The token predicate of both calls. -/
def isEog (model : LoadedModel δ Λ) (token : TokenId) : Bool :=
  token ∈ model.tokenizer.special.eog

/-- `generate` -/
def generate (model : LoadedModel δ Λ) (promptTokens : List TokenId) (maxNewTokens : Nat) :
    EngineResult Completion := do
  validateGenerationRequest model.pass.contextLength promptTokens maxNewTokens
  let decoder ← model.pass.new
  let generatedTokens ←
    (model.pass.generateUntil promptTokens maxNewTokens model.isEog (decoder, ())).1
  model.completedGeneration promptTokens generatedTokens

/-- `text_decoder.push(token_id)` -/
def pushToken (tokenizer : Tokenizer) (token : TokenId) : Effect IncrementalDecoder EngineError Str :=
  fun decoder => decoder.push tokenizer token

/-- The answer of a consumer, as the loop takes it. -/
def controlOf : GenerationControl → DecodeControl
  | .Continue => .Continue
  | .Cancel => .Stop

/-- The callback of `generate_incremental`. It captures the text decoder and what
its consumer has received; a consumer answers from all of that. -/
def onToken (model : LoadedModel δ Λ) (consumer : List TokenDelta → GenerationControl)
    (token : TokenId) :
    Effect (IncrementalDecoder × List TokenDelta) EngineError DecodeControl := do
  let text ← (pushToken model.tokenizer token).first
  .modify fun captured => (captured.1, captured.2 ++ [⟨token, text⟩])
  let captured ← .get
  pure (controlOf (consumer captured.2))

/-- `generate_incremental` -/
def generateIncremental (model : LoadedModel δ Λ) (promptTokens : List TokenId)
    (maxNewTokens : Nat) (consumer : List TokenDelta → GenerationControl) : IncrementalRun :=
  match
    (do
      validateGenerationRequest model.pass.contextLength promptTokens maxNewTokens
      model.pass.new : EngineResult δ) with
  | .err e => ⟨.err e, [], 0⟩
  | .fault k => ⟨.fault k, [], 0⟩
  | .ok decoder =>
    let (output, decoder, captured) :=
      model.pass.generateUntilWithCallback promptTokens maxNewTokens model.isEog
        (model.onToken consumer) (decoder, Tokenizer.incrementalDecoder true, [])
    let result := do
      let output ← output
      if output.stopReason = .Consumer then .ok .Cancelled
      else do
        let completion ← model.completedGeneration promptTokens output.tokenIds
        .ok (.Completed completion)
    ⟨result, captured.2, model.pass.position decoder⟩

end LoadedModel

end CamelidEnterprise

import CamelidEnterprise.Engine.Error

/-!
# Camelid Enterprise — the backend seam

What the server asks of an inference backend: a blocking call that returns a
completion, and an incremental call that reports each token to a callback. The
types are those of `crates/engine-core/src/runtime.rs`, which the server passes on.
-/

namespace CamelidEnterprise.Server

open Foundation

/-- `FinishReason` -/
inductive FinishReason
  | EndOfGeneration
  | Length
deriving DecidableEq, Repr

/-- `Completion` -/
structure Completion where
  promptTokens : List Nat
  generatedTokens : List Nat
  text : Str
  finishReason : FinishReason
deriving DecidableEq, Repr

/-- `TokenDelta` -/
structure TokenDelta where
  tokenId : Nat
  text : Str
deriving DecidableEq, Repr

/-- `GenerationControl` -/
inductive GenerationControl
  | Continue
  | Cancel
deriving DecidableEq, Repr

/-- `IncrementalGeneration` -/
inductive IncrementalGeneration
  | Completed (completion : Completion)
  | Cancelled
deriving DecidableEq, Repr

/-- An incremental call under way: it calls `on_token` and goes on according to the
answer, or it returns, or it panics (a fault). -/
inductive Generation
  | token (delta : TokenDelta) (next : GenerationControl → Generation)
  | returned (result : EngineResult IncrementalGeneration)

/-- `CompletionBackend`, as far as generation uses it. -/
structure CompletionBackend where
  complete : Str → Nat → EngineResult Completion
  completeIncremental : Str → Nat → Generation
  completePrompt : Str → Bool → Bool → Nat → EngineResult Completion
  completePromptIncremental : Str → Bool → Bool → Nat → Generation

/-- `GenerationInput` -/
inductive GenerationInput
  | RawCompletion (prompt : Str)
  | RenderedChat (prompt : Str) (addSpecial parseSpecial : Bool)
deriving DecidableEq, Repr

/-- The call `run_generation` makes. -/
def CompletionBackend.blocking (backend : CompletionBackend) (input : GenerationInput)
    (maxNewTokens : Nat) : EngineResult Completion :=
  match input with
  | .RawCompletion prompt => backend.complete prompt maxNewTokens
  | .RenderedChat prompt addSpecial parseSpecial =>
    backend.completePrompt prompt addSpecial parseSpecial maxNewTokens

/-- The call `run_stream_generation` makes. -/
def CompletionBackend.incremental (backend : CompletionBackend) (input : GenerationInput)
    (maxNewTokens : Nat) : Generation :=
  match input with
  | .RawCompletion prompt => backend.completeIncremental prompt maxNewTokens
  | .RenderedChat prompt addSpecial parseSpecial =>
    backend.completePromptIncremental prompt addSpecial parseSpecial maxNewTokens

end CamelidEnterprise.Server

import CamelidEnterprise.Engine.EncodeTotal
import CamelidEnterprise.Engine.GreedyValues
import CamelidEnterprise.Server.Stream

/-!
# Camelid Enterprise — which requests exceed the context

`run_generation` and `run_stream_generation` over a loaded model: a prompt is encoded,
the engine generates or fails, and the client sees the code of the failure. Both paths
read `context_length_exceeded` off one variant of the engine's error type,
`ShapeMismatch`, which is what a request beyond the context gets, but also a prompt
without a token and every shape that a forward pass finds wrong.

* `contextRefusals_iff` — over any decoder: when no computation of the path stops so.
* `context_refusals_exact` — over a servable file: when the prompt has a token and its
  values are numbers (`GreedyFinite`).

A panic is not a failure of the engine here: it ends the worker's job, and other codes
report it. The arithmetic of floats is a parameter.
-/

namespace CamelidEnterprise

open Foundation Server

variable {δ Λ : Type}

-- ---------------------------------------------------------------------------
-- The backend
-- ---------------------------------------------------------------------------

namespace LoadedModel

/-- `encode_completion` -/
def encodeCompletion (cls : CharClass) (model : LoadedModel δ Λ) (prompt : Str) :
    EngineResult (List TokenId) :=
  model.tokenizer.encode cls prompt true false

/-- `encode_prompt` -/
def encodePrompt (cls : CharClass) (model : LoadedModel δ Λ) (prompt : Str)
    (addSpecial parseSpecial : Bool) : EngineResult (List TokenId) :=
  model.tokenizer.encode cls prompt addSpecial parseSpecial

/-- `complete` -/
def complete (cls : CharClass) (model : LoadedModel δ Λ) (prompt : Str) (maxNewTokens : Nat) :
    EngineResult Completion := do
  let promptTokens ← model.encodeCompletion cls prompt
  model.generate promptTokens maxNewTokens

/-- `complete_incremental` -/
def completeIncremental (cls : CharClass) (model : LoadedModel δ Λ) (prompt : Str)
    (maxNewTokens : Nat) (consumer : List TokenDelta → GenerationControl) :
    EngineResult IncrementalGeneration := do
  let promptTokens ← model.encodeCompletion cls prompt
  (model.generateIncremental promptTokens maxNewTokens consumer).result

/-- `complete_prompt` -/
def completePrompt (cls : CharClass) (model : LoadedModel δ Λ) (prompt : Str)
    (addSpecial parseSpecial : Bool) (maxNewTokens : Nat) : EngineResult Completion := do
  let promptTokens ← model.encodePrompt cls prompt addSpecial parseSpecial
  model.generate promptTokens maxNewTokens

/-- `complete_prompt_incremental` -/
def completePromptIncremental (cls : CharClass) (model : LoadedModel δ Λ) (prompt : Str)
    (addSpecial parseSpecial : Bool) (maxNewTokens : Nat)
    (consumer : List TokenDelta → GenerationControl) : EngineResult IncrementalGeneration := do
  let promptTokens ← model.encodePrompt cls prompt addSpecial parseSpecial
  (model.generateIncremental promptTokens maxNewTokens consumer).result

/-- The call of `run_generation`. -/
def blocking (cls : CharClass) (model : LoadedModel δ Λ) (input : GenerationInput)
    (maxNewTokens : Nat) : EngineResult Completion :=
  match input with
  | .RawCompletion prompt => model.complete cls prompt maxNewTokens
  | .RenderedChat prompt addSpecial parseSpecial =>
    model.completePrompt cls prompt addSpecial parseSpecial maxNewTokens

/-- The call of `run_stream_generation`, whose callback answers as the consumer does. -/
def streaming (cls : CharClass) (model : LoadedModel δ Λ) (input : GenerationInput)
    (maxNewTokens : Nat) (consumer : List TokenDelta → GenerationControl) :
    EngineResult IncrementalGeneration :=
  match input with
  | .RawCompletion prompt => model.completeIncremental cls prompt maxNewTokens consumer
  | .RenderedChat prompt addSpecial parseSpecial =>
    model.completePromptIncremental cls prompt addSpecial parseSpecial maxNewTokens consumer

/-- The tokens of a request. -/
def promptTokens (cls : CharClass) (model : LoadedModel δ Λ) (input : GenerationInput) :
    EngineResult (List TokenId) :=
  match input with
  | .RawCompletion prompt => model.encodeCompletion cls prompt
  | .RenderedChat prompt addSpecial parseSpecial =>
    model.encodePrompt cls prompt addSpecial parseSpecial

variable {cls : CharClass} {model : LoadedModel δ Λ} {input : GenerationInput} {maxNew : Nat}
  {consumer : List TokenDelta → GenerationControl}

theorem blocking_eq : model.blocking cls input maxNew =
    model.promptTokens cls input >>= fun tokens => model.generate tokens maxNew := by
  cases input with
  | RawCompletion prompt => rfl
  | RenderedChat prompt addSpecial parseSpecial => rfl

theorem streaming_eq : model.streaming cls input maxNew consumer =
    model.promptTokens cls input >>= fun tokens =>
      (model.generateIncremental tokens maxNew consumer).result := by
  cases input with
  | RawCompletion prompt => rfl
  | RenderedChat prompt addSpecial parseSpecial => rfl

theorem promptTokens_raises :
    (model.promptTokens cls input).Raises Tokenizer.MetadataError := by
  cases input with
  | RawCompletion prompt => exact Tokenizer.encode_raises _ _ _ _ _
  | RenderedChat prompt addSpecial parseSpecial => exact Tokenizer.encode_raises _ _ _ _ _

-- ---------------------------------------------------------------------------
-- The request check
-- ---------------------------------------------------------------------------

/-- A context length is a `u32`, so counts within it are far from the end of a word. -/
theorem validateGenerationRequest_within {contextLength : Nat} {tokens : List TokenId}
    (hcontext : contextLength < 2 ^ 32) (hne : tokens ≠ [])
    (hwithin : tokens.length + maxNew ≤ contextLength) :
    validateGenerationRequest contextLength tokens maxNew = .ok () := by
  unfold validateGenerationRequest
  rw [if_neg hne, if_neg (by omega), if_neg (by omega)]

theorem validateGenerationRequest_refused {contextLength : Nat} {tokens : List TokenId}
    (h : tokens = [] ∨ contextLength < tokens.length + maxNew) :
    ∃ message, validateGenerationRequest contextLength tokens maxNew =
      .err (.ShapeMismatch message) := by
  unfold validateGenerationRequest
  split
  · exact ⟨_, rfl⟩
  rename_i hne
  split
  · exact ⟨_, rfl⟩
  split
  · exact ⟨_, rfl⟩
  · rcases h with h | h
    · exact absurd h hne
    · omega

/-- Both calls give back the error of the check. -/
theorem generate_refused {tokens : List TokenId} {e : EngineError}
    (h : validateGenerationRequest model.pass.contextLength tokens maxNew = .err e) :
    model.generate tokens maxNew = .err e ∧
      ∀ consumer, (model.generateIncremental tokens maxNew consumer).result = .err e := by
  unfold generate generateIncremental
  rw [h]
  exact ⟨rfl, fun _ => rfl⟩

end LoadedModel

-- ---------------------------------------------------------------------------
-- What the client sees
-- ---------------------------------------------------------------------------

namespace Server

def contextLengthExceeded : String := "context_length_exceeded"

def generationFailed : String := "generation_failed"

/-- The code of a blocking response that is an error. -/
def blockingCode (job : EngineResult Completion) : Option String :=
  match blockingResponse job with
  | .ok _ => none
  | .error error => some error.code

/-- The code of the error event that a stream ends with. A job that panicked sends
nothing, and the body reports that (`workerFailed`). -/
def streamingCode : EngineResult IncrementalGeneration → Option String
  | .ok _ => none
  | .err error => some (engineErrorParts error).1
  | .fault _ => some "generation_worker_failed"

/-- The code of a failure of the engine is read off its variant. -/
theorem engineError_code (error : EngineError) :
    (∃ message, error = .ShapeMismatch message) ∧
        (engineError error).code = contextLengthExceeded ∨
      (∀ message, error ≠ .ShapeMismatch message) ∧
        (engineError error).code = generationFailed := by
  cases error with
  | ShapeMismatch message => exact Or.inl ⟨⟨message, rfl⟩, rfl⟩
  | _ =>
    refine Or.inr ⟨?_, rfl⟩
    intro message h
    cases h

/-- On both paths. -/
theorem streamingCode_err (error : EngineError) :
    streamingCode (.err error) = some (engineError error).code := by
  cases error with
  | _ => rfl

theorem blockingCode_err (error : EngineError) :
    blockingCode (.err error) = some (engineError error).code := rfl

theorem generationFailed_ne : generationFailed ≠ contextLengthExceeded := by decide

theorem code_eq_exceeded {error : EngineError} :
    (engineError error).code = contextLengthExceeded ↔
      ∃ message, error = .ShapeMismatch message := by
  rcases engineError_code error with ⟨hshape, hcode⟩ | ⟨hother, hcode⟩
  · exact ⟨fun _ => hshape, fun _ => hcode⟩
  · rw [hcode]
    exact ⟨fun h => absurd h generationFailed_ne, fun ⟨message, h⟩ => absurd h (hother message)⟩

theorem blockingCode_eq_exceeded {job : EngineResult Completion} :
    blockingCode job = some contextLengthExceeded ↔
      ∃ message, job = .err (.ShapeMismatch message) := by
  cases job with
  | ok completion => simp [blockingCode, blockingResponse, runGeneration, runJob]
  | err error =>
    rw [blockingCode_err, Option.some_inj, code_eq_exceeded]
    simp only [Outcome.err.injEq]
  | fault kind =>
    have hcode : blockingCode (.fault kind) = some "generation_worker_unavailable" := rfl
    rw [hcode]
    simp [contextLengthExceeded]

theorem streamingCode_eq_exceeded {result : EngineResult IncrementalGeneration} :
    streamingCode result = some contextLengthExceeded ↔
      ∃ message, result = .err (.ShapeMismatch message) := by
  cases result with
  | ok generation => simp [streamingCode]
  | err error =>
    rw [streamingCode_err, Option.some_inj, code_eq_exceeded]
    simp only [Outcome.err.injEq]
  | fault kind => simp [streamingCode, contextLengthExceeded]

-- ---------------------------------------------------------------------------
-- Exact refusals
-- ---------------------------------------------------------------------------

/-- The prompt and the tokens that may be generated do not fit the context. -/
def Exceeds (cls : CharClass) (model : LoadedModel δ Λ) (input : GenerationInput)
    (maxNew : Nat) : Prop :=
  ∃ tokens, model.promptTokens cls input = .ok tokens ∧
    model.pass.contextLength < tokens.length + maxNew

/-- What a client may conclude from a code, for one request of a model. -/
structure ContextRefusals (cls : CharClass) (model : LoadedModel δ Λ) (input : GenerationInput)
    (maxNew : Nat) : Prop where
  /-- `context_length_exceeded` is for the requests that exceed the context -/
  blocking : blockingCode (model.blocking cls input maxNew) = some contextLengthExceeded ↔
    Exceeds cls model input maxNew
  streaming : ∀ consumer,
    streamingCode (model.streaming cls input maxNew consumer) = some contextLengthExceeded ↔
      Exceeds cls model input maxNew
  /-- any other failure of the engine is `generation_failed` -/
  blockingOther : ∀ error, model.blocking cls input maxNew = .err error →
    ¬Exceeds cls model input maxNew →
    blockingCode (model.blocking cls input maxNew) = some generationFailed
  streamingOther : ∀ consumer error, model.streaming cls input maxNew consumer = .err error →
    ¬Exceeds cls model input maxNew →
    streamingCode (model.streaming cls input maxNew consumer) = some generationFailed
  /-- a failure of one path is one of the other, with the same code; a stream may have
  failed at a token before a blocking call comes to a panic -/
  sameCode : ∀ error, model.blocking cls input maxNew = .err error →
    streamingCode (model.streaming cls input maxNew LoadedModel.neverCancels) =
      blockingCode (model.blocking cls input maxNew)
  sameFailure : ∀ error,
    model.streaming cls input maxNew LoadedModel.neverCancels = .err error →
    (model.blocking cls input maxNew).NoFault →
    blockingCode (model.blocking cls input maxNew) =
      streamingCode (model.streaming cls input maxNew LoadedModel.neverCancels)

/-- A request within the context has a token, and no computation on the path of its
generation stops with a shape error: what remains to be asked of a model, below. -/
def ShapesHold (cls : CharClass) (model : LoadedModel δ Λ) (input : GenerationInput)
    (maxNew : Nat) : Prop :=
  ∀ tokens, model.promptTokens cls input = .ok tokens →
    tokens.length + maxNew ≤ model.pass.contextLength →
    tokens ≠ [] ∧
      ∀ message, ¬model.GenerationStops tokens maxNew (.inl (.ShapeMismatch message))

variable {cls : CharClass} {model : LoadedModel δ Λ} {input : GenerationInput} {maxNew : Nat}
  {tokens : List TokenId}

/-- A request that exceeds the context is refused with a shape error on both paths. -/
theorem Exceeds.refused (h : Exceeds cls model input maxNew) :
    ∃ message, model.blocking cls input maxNew = .err (.ShapeMismatch message) ∧
      ∀ consumer, model.streaming cls input maxNew consumer = .err (.ShapeMismatch message) := by
  obtain ⟨tokens, htokens, hexceeds⟩ := h
  obtain ⟨message, hrefused⟩ :=
    LoadedModel.validateGenerationRequest_refused (Or.inr hexceeds)
  obtain ⟨hblocking, hstreaming⟩ := LoadedModel.generate_refused hrefused
  refine ⟨message, ?_, fun consumer => ?_⟩
  · rw [LoadedModel.blocking_eq, htokens, Outcome.ok_bind, hblocking]
  · rw [LoadedModel.streaming_eq, htokens, Outcome.ok_bind, hstreaming]

theorem not_exceeds (htokens : model.promptTokens cls input = .ok tokens)
    (hwithin : tokens.length + maxNew ≤ model.pass.contextLength) :
    ¬Exceeds cls model input maxNew := by
  rintro ⟨tokens', htokens', hexceeds⟩
  obtain rfl := Outcome.ok.inj (htokens.symm.trans htokens')
  omega

/-- A shape error is none of the tokenizer's. -/
theorem shape_notTokenizers (message : String) :
    LoadedModel.NotTokenizers (.inl (.ShapeMismatch message)) := by
  intro e he hmetadata
  obtain rfl := Sum.inl.inj he
  obtain ⟨_, h⟩ := hmetadata
  cases h

theorem fault_notTokenizers (kind : Fault) : LoadedModel.NotTokenizers (.inr kind) := by
  intro e he
  cases he

/-- Encoding fails with no shape error, so a request that does has its tokens. -/
theorem encoded_of_shape {α : Type} {message : String} {rest : List TokenId → EngineResult α}
    (h : model.promptTokens cls input >>= rest = .err (.ShapeMismatch message)) :
    ∃ tokens, model.promptTokens cls input = .ok tokens ∧
      rest tokens = .err (.ShapeMismatch message) := by
  rcases hencode : model.promptTokens cls input with tokens | e | k
  · rw [hencode] at h
    exact ⟨tokens, rfl, h⟩
  · rw [hencode] at h
    obtain ⟨_, rfl⟩ := LoadedModel.promptTokens_raises e hencode
    cases h
  · rw [hencode] at h
    cases h

/-- Where shapes hold, a request that does not exceed the context starts, and its path
stops with no shape error. -/
theorem ShapesHold.starts (hshapes : ShapesHold cls model input maxNew)
    (hcontext : model.pass.contextLength < 2 ^ 32)
    (htokens : model.promptTokens cls input = .ok tokens)
    (hnot : ¬Exceeds cls model input maxNew) :
    validateGenerationRequest model.pass.contextLength tokens maxNew = .ok () ∧
      ∀ message, ¬model.GenerationStops tokens maxNew (.inl (.ShapeMismatch message)) := by
  have hwithin : tokens.length + maxNew ≤ model.pass.contextLength := by
    by_contra hexceeds
    exact hnot ⟨tokens, htokens, by omega⟩
  obtain ⟨hne, hpath⟩ := hshapes tokens htokens hwithin
  exact ⟨LoadedModel.validateGenerationRequest_within hcontext hne hwithin, hpath⟩

/-- So a shape error means that the context is exceeded. -/
theorem ShapesHold.exceeds_blocking (hshapes : ShapesHold cls model input maxNew)
    (hcontext : model.pass.contextLength < 2 ^ 32) {message : String}
    (h : model.blocking cls input maxNew = .err (.ShapeMismatch message)) :
    Exceeds cls model input maxNew := by
  rw [LoadedModel.blocking_eq] at h
  obtain ⟨tokens, htokens, hgenerate⟩ := encoded_of_shape h
  by_contra hnot
  obtain ⟨hvalid, hpath⟩ := hshapes.starts hcontext htokens hnot
  exact hpath message (LoadedModel.generate_stopped (shape_notTokenizers message) hvalid
    (by rw [hgenerate]; rfl))

theorem ShapesHold.exceeds_streaming (hshapes : ShapesHold cls model input maxNew)
    (hcontext : model.pass.contextLength < 2 ^ 32) {message : String}
    {consumer : List TokenDelta → GenerationControl}
    (h : model.streaming cls input maxNew consumer = .err (.ShapeMismatch message)) :
    Exceeds cls model input maxNew := by
  rw [LoadedModel.streaming_eq] at h
  obtain ⟨tokens, htokens, hgenerate⟩ := encoded_of_shape h
  by_contra hnot
  obtain ⟨hvalid, hpath⟩ := hshapes.starts hcontext htokens hnot
  exact hpath message (LoadedModel.incremental_stopped (shape_notTokenizers message) hvalid
    (by rw [hgenerate]; rfl))

/-- A blocking call that fails has a stream that fails. -/
theorem streaming_fails {error : EngineError}
    (h : model.blocking cls input maxNew = .err error) :
    ∃ error', model.streaming cls input maxNew LoadedModel.neverCancels = .err error' ∧
      (error' = error ∨ ¬Exceeds cls model input maxNew) := by
  rw [LoadedModel.blocking_eq] at h
  rw [LoadedModel.streaming_eq]
  rcases htokens : model.promptTokens cls input with tokens | e | k
  case err =>
    rw [htokens] at h
    exact ⟨e, rfl, Or.inl (Outcome.err.inj h)⟩
  case fault =>
    rw [htokens] at h
    cases h
  rw [htokens, Outcome.ok_bind] at h
  rw [Outcome.ok_bind]
  rcases hcheck : validateGenerationRequest model.pass.contextLength tokens maxNew with ⟨⟩ | e | k
  case err =>
    obtain ⟨hblocking, hstreaming⟩ := LoadedModel.generate_refused hcheck
    exact ⟨e, hstreaming _, Or.inl (Outcome.err.inj (hblocking.symm.trans h))⟩
  case fault =>
    unfold validateGenerationRequest at hcheck
    split at hcheck
    · cases hcheck
    split at hcheck
    · cases hcheck
    split at hcheck
    · cases hcheck
    · cases hcheck
  have hwithin := (LoadedModel.validateGenerationRequest_eq_ok hcheck).2.2
  rcases hrun : (model.generateIncremental tokens maxNew LoadedModel.neverCancels).result with
    generation | e | k
  · obtain ⟨completion, hcompleted, -⟩ := LoadedModel.agrees_neverCancels hrun
    rw [h] at hcompleted
    cases hcompleted
  · exact ⟨e, rfl, Or.inr (not_exceeds htokens hwithin)⟩
  · -- a panic of the stream is one of the path, and so of the blocking call
    have hpath := LoadedModel.incremental_stopped (fault_notTokenizers k) hcheck
      (by rw [hrun]; rfl)
    have hfailed := LoadedModel.generate_stops hcheck hpath
    rw [h] at hfailed
    cases hfailed

/-- Where one path may not say `context_length_exceeded`, every failure has the other
code. -/
theorem code_other {error : EngineError} (h : (engineError error).code ≠ contextLengthExceeded) :
    (engineError error).code = generationFailed := by
  rcases engineError_code error with ⟨-, hcode⟩ | ⟨-, hcode⟩
  · exact absurd hcode h
  · exact hcode

/-- Over any decoder, a code goes wrong where a computation of the path does. -/
theorem contextRefusals_iff (hcontext : model.pass.contextLength < 2 ^ 32) :
    ContextRefusals cls model input maxNew ↔ ShapesHold cls model input maxNew := by
  constructor
  · intro hrefusals tokens htokens hwithin
    -- a shape error of the blocking call would say that the context is exceeded
    have hnot : ∀ message, model.blocking cls input maxNew ≠ .err (.ShapeMismatch message) := by
      intro message h
      exact not_exceeds htokens hwithin
        (hrefusals.blocking.mp (blockingCode_eq_exceeded.mpr ⟨message, h⟩))
    have hgenerate : model.blocking cls input maxNew = model.generate tokens maxNew := by
      rw [LoadedModel.blocking_eq, htokens, Outcome.ok_bind]
    have hne : tokens ≠ [] := by
      intro hempty
      obtain ⟨message, hrefused⟩ := @LoadedModel.validateGenerationRequest_refused
        maxNew model.pass.contextLength tokens (Or.inl hempty)
      exact hnot message (hgenerate.trans (LoadedModel.generate_refused hrefused).1)
    refine ⟨hne, fun message hpath => ?_⟩
    have hvalid := LoadedModel.validateGenerationRequest_within hcontext hne hwithin
    have hfailed := LoadedModel.generate_stops hvalid hpath
    rcases hrun : model.generate tokens maxNew with completion | e | k
    · rw [hrun] at hfailed
      cases hfailed
    · rw [hrun] at hfailed
      obtain rfl := Sum.inl.inj (Option.some.inj hfailed)
      exact hnot message (hgenerate.trans hrun)
    · rw [hrun] at hfailed
      cases hfailed
  · intro hshapes
    have hblocking : blockingCode (model.blocking cls input maxNew) = some contextLengthExceeded ↔
        Exceeds cls model input maxNew := by
      rw [blockingCode_eq_exceeded]
      constructor
      · rintro ⟨message, h⟩
        exact hshapes.exceeds_blocking hcontext h
      · intro hexceeds
        obtain ⟨message, h, -⟩ := hexceeds.refused
        exact ⟨message, h⟩
    have hstreaming : ∀ consumer,
        streamingCode (model.streaming cls input maxNew consumer) = some contextLengthExceeded ↔
          Exceeds cls model input maxNew := by
      intro consumer
      rw [streamingCode_eq_exceeded]
      constructor
      · rintro ⟨message, h⟩
        exact hshapes.exceeds_streaming hcontext h
      · intro hexceeds
        obtain ⟨message, -, h⟩ := hexceeds.refused
        exact ⟨message, h consumer⟩
    have hblockingOther : ∀ error, model.blocking cls input maxNew = .err error →
        ¬Exceeds cls model input maxNew →
        blockingCode (model.blocking cls input maxNew) = some generationFailed := by
      intro error herror hnot
      have hcode := mt hblocking.mp hnot
      rw [herror, blockingCode_err] at hcode ⊢
      rw [code_other fun h => hcode (congrArg some h)]
    have hstreamingOther : ∀ consumer error,
        model.streaming cls input maxNew consumer = .err error →
        ¬Exceeds cls model input maxNew →
        streamingCode (model.streaming cls input maxNew consumer) = some generationFailed := by
      intro consumer error herror hnot
      have hcode := mt (hstreaming consumer).mp hnot
      rw [herror, streamingCode_err] at hcode ⊢
      rw [code_other fun h => hcode (congrArg some h)]
    have hsame : ∀ error, model.blocking cls input maxNew = .err error →
        streamingCode (model.streaming cls input maxNew LoadedModel.neverCancels) =
          blockingCode (model.blocking cls input maxNew) := by
      intro error herror
      obtain ⟨error', herror', rfl | hnot⟩ := streaming_fails herror
      · rw [herror, herror', streamingCode_err, blockingCode_err]
      · rw [hstreamingOther _ _ herror' hnot, hblockingOther _ herror hnot]
    refine ⟨hblocking, hstreaming, hblockingOther, hstreamingOther, hsame, ?_⟩
    intro error herror hreturns
    rcases hrun : model.blocking cls input maxNew with completion | e | k
    · -- a blocking call that returns has a stream that returns
      rw [LoadedModel.blocking_eq] at hrun
      obtain ⟨tokens, htokens, hrun⟩ := Outcome.bind_eq_ok.mp hrun
      rw [LoadedModel.streaming_eq, htokens, Outcome.ok_bind,
        (LoadedModel.neverCancels_agrees hrun).1] at herror
      cases herror
    · rw [← hrun, hsame e hrun]
    · exact absurd hrun (hreturns k)

/-- A request without a token is refused as one that exceeds the context. -/
theorem not_exact_of_empty (hempty : model.promptTokens cls input = .ok [])
    (hwithin : maxNew ≤ model.pass.contextLength) :
    blockingCode (model.blocking cls input maxNew) = some contextLengthExceeded ∧
      ¬ContextRefusals cls model input maxNew := by
  obtain ⟨message, hrefused⟩ := @LoadedModel.validateGenerationRequest_refused
    maxNew model.pass.contextLength [] (Or.inl rfl)
  have hcode : blockingCode (model.blocking cls input maxNew) = some contextLengthExceeded := by
    refine blockingCode_eq_exceeded.mpr ⟨message, ?_⟩
    rw [LoadedModel.blocking_eq, hempty, Outcome.ok_bind]
    exact (LoadedModel.generate_refused hrefused).1
  refine ⟨hcode, fun hrefusals => not_exceeds hempty ?_ (hrefusals.blocking.mp hcode)⟩
  rwa [List.length_nil, Nat.zero_add]

-- ---------------------------------------------------------------------------
-- Loaded models
-- ---------------------------------------------------------------------------

section Loaded

variable [FloatOps]

/-- A request within the context has a token, and the values that its greedy choices rest
on are numbers. -/
def Answerable (cls : CharClass) (loaded : LoadedDense) (input : GenerationInput)
    (maxNew : Nat) : Prop :=
  ∀ tokens, loaded.model.promptTokens cls input = .ok tokens →
    tokens.length + maxNew ≤ loaded.dense.config.contextLength →
    tokens ≠ [] ∧ loaded.dense.GreedyFinite loaded.model.isEog maxNew tokens

/-- A prompt is of the vocabulary. -/
theorem promptTokens_lt {path : String} {file : List UInt8} {projection : Q8Projection}
    {loaded : LoadedDense} (hload : LoadedDense.load path file projection = .ok loaded)
    (htokens : loaded.model.promptTokens cls input = .ok tokens) :
    ∀ token ∈ tokens, token < loaded.tokenizer.tokens.length := by
  obtain ⟨gguf, htokenizer⟩ := LoadedDense.load_tokenizer hload
  cases input with
  | RawCompletion prompt =>
    exact (Outcome.gives_iff.mp (Tokenizer.encode_gives cls htokenizer _ _ _)).2 tokens htokens
  | RenderedChat prompt addSpecial parseSpecial =>
    exact (Outcome.gives_iff.mp (Tokenizer.encode_gives cls htokenizer _ _ _)).2 tokens htokens

/-- **Refusals of the context.** For a servable model and every request, on both paths: the
codes are exact if and only if the request, where it is within the context, has a token and
rests on numbers. -/
theorem context_refusals_exact (cls : CharClass) {path : String} {file : List UInt8}
    {projection : Q8Projection} {loaded : LoadedDense}
    (hload : LoadedDense.load path file projection = .ok loaded) {gguf : Gguf.GgufFile}
    (hparse : Gguf.readMetadataWithLen file (.ofNat file.length) = .ok gguf)
    {binding : LlamaTensorBinding}
    (hbind : LlamaTensorBinding.bind gguf loaded.dense.config = .ok binding)
    (hservable : Servable loaded.dense.config loaded.dense.dims binding)
    (input : GenerationInput) (maxNew : Nat) :
    ContextRefusals cls loaded.model input maxNew ↔ Answerable cls loaded input maxNew := by
  obtain ⟨hsound, hserved, hnarrow, hvocab⟩ := LoadedDense.ready hload hparse hbind hservable
  rw [contextRefusals_iff hnarrow.context]
  refine forall_congr' fun tokens => forall_congr' fun htokens => forall_congr' fun hwithin =>
    and_congr_right fun hne => ?_
  have hprompt : ∀ token ∈ tokens, token < loaded.dense.dims.vocabSize := by
    rw [← hvocab]
    exact promptTokens_lt hload htokens
  have hstops := DenseModel.stops_shape_iff hsound hserved hnarrow hservable.cache
    loaded.tokenizer hservable.layers hservable.headDim hne hprompt hwithin
  rw [← not_exists, show loaded.model = ⟨loaded.tokenizer, loaded.dense.forwardPass⟩ from rfl,
    hstops, not_not]

end Loaded

-- ---------------------------------------------------------------------------
-- A file
-- ---------------------------------------------------------------------------

section Samples

/-- An arithmetic in which every attention is flat. -/
@[reducible] def flatOps : FloatOps := { residueOps with exp := fun _ => 1 }

attribute [local instance] flatOps

/-- The unit model, with a tokenizer that adds nothing of its own to a text. -/
def plainUnitFile : List UInt8 :=
  unitFileWith [⟨"tokenizer.ggml.add_bos_token".toList, .Bool false, 0⟩,
    ⟨"tokenizer.ggml.add_space_prefix".toList, .Bool false, 0⟩]

theorem plainUnitFile_unitLike : UnitLike plainUnitFile := by
  unfold UnitLike
  decide +kernel

/-- Its tokens of two texts, and its logits over two positions and three. -/
theorem plainUnitFile_values {loaded : LoadedDense}
    (hload : LoadedDense.load "model.gguf" plainUnitFile .portable = .ok loaded) :
    loaded.model.encodeCompletion Tokenizer.asciiClass [] = .ok [] ∧
      loaded.model.encodeCompletion Tokenizer.asciiClass "ab".toList = .ok [0, 1] ∧
      ∃ first second, loaded.dense.referenceLogits [0, 1] 1 = .ok first ∧
        loaded.dense.referenceLogits [0, 1, 0] 2 = .ok second ∧
        (∀ value ∈ first.data, value.isFinite = true) ∧ argmaxIdx first.data = 0 ∧
        ∀ value ∈ second.data, value.isFinite = true := by
  have hrun : (LoadedDense.load "model.gguf" plainUnitFile .portable >>= fun loaded =>
      loaded.dense.referenceLogits [0, 1] 1 >>= fun first =>
      loaded.dense.referenceLogits [0, 1, 0] 2 >>= fun second =>
        (.ok (loaded.model.encodeCompletion Tokenizer.asciiClass [],
          loaded.model.encodeCompletion Tokenizer.asciiClass "ab".toList,
          first.data.all F32.isFinite, argmaxIdx first.data, second.data.all F32.isFinite) :
          EngineResult _)) = .ok (.ok [], .ok [0, 1], true, 0, true) := by
    decide +kernel
  rw [hload, Outcome.ok_bind] at hrun
  obtain ⟨first, hfirst, hrun⟩ := Outcome.bind_eq_ok.mp hrun
  obtain ⟨second, hsecond, hrun⟩ := Outcome.bind_eq_ok.mp hrun
  obtain ⟨hempty, hrun⟩ := Prod.mk.inj (Outcome.ok.inj hrun)
  obtain ⟨hletters, hrun⟩ := Prod.mk.inj hrun
  obtain ⟨hfinite, hrun⟩ := Prod.mk.inj hrun
  obtain ⟨hgreatest, hfinite'⟩ := Prod.mk.inj hrun
  exact ⟨hempty, hletters, first, second, hfirst, hsecond, List.all_eq_true.mp hfinite, hgreatest,
    List.all_eq_true.mp hfinite'⟩

/-- The prompt `ab` with a budget of two fills the context, and rests on numbers. -/
theorem context_refusals_exact_letters : ∃ loaded,
    LoadedDense.load "model.gguf" plainUnitFile .portable = .ok loaded ∧
      ContextRefusals Tokenizer.asciiClass loaded.model (.RawCompletion "ab".toList) 2 := by
  obtain ⟨gguf, binding, loaded, hparse, hbind, hload, hservable, -, -⟩ :=
    plainUnitFile_unitLike.servable
  obtain ⟨-, hletters, first, second, hfirst, hsecond, hfinite, hgreatest, hfinite'⟩ :=
    plainUnitFile_values hload
  refine ⟨loaded, hload,
    (context_refusals_exact Tokenizer.asciiClass hload hparse hbind hservable _ 2).mpr ?_⟩
  intro tokens htokens _
  obtain rfl := Outcome.ok.inj (hletters.symm.trans htokens)
  refine ⟨List.cons_ne_nil _ _, first, hfirst, hfinite, fun _ => ?_⟩
  rw [hgreatest]
  exact ⟨second, hsecond, hfinite', fun _ => trivial⟩

/-- The empty prompt with a budget of one is within the context, and refused for it. -/
theorem context_refusals_empty : ∃ loaded,
    LoadedDense.load "model.gguf" plainUnitFile .portable = .ok loaded ∧
      loaded.dense.config.contextLength = 4 ∧
      loaded.model.promptTokens Tokenizer.asciiClass (.RawCompletion []) = .ok [] ∧
      blockingCode (loaded.model.blocking Tokenizer.asciiClass (.RawCompletion []) 1) =
        some contextLengthExceeded ∧
      ¬ContextRefusals Tokenizer.asciiClass loaded.model (.RawCompletion []) 1 := by
  obtain ⟨gguf, binding, loaded, -, -, hload, -, hconfig, -⟩ := plainUnitFile_unitLike.servable
  obtain ⟨hempty, -⟩ := plainUnitFile_values hload
  have hcontext : loaded.dense.config.contextLength = 4 := by
    rw [hconfig]
    rfl
  have hwithin : 1 ≤ loaded.model.pass.contextLength := by
    rw [show loaded.model.pass.contextLength = loaded.dense.config.contextLength from rfl, hcontext]
    decide
  have hrefused := @not_exact_of_empty _ _ Tokenizer.asciiClass loaded.model (.RawCompletion []) 1
    hempty hwithin
  exact ⟨loaded, hload, hcontext, hempty, hrefused⟩

end Samples

end Server

end CamelidEnterprise

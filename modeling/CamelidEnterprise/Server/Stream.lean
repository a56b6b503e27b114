import CamelidEnterprise.Server.Backend
import CamelidEnterprise.Server.Pool

/-!
# Camelid Enterprise — streamed and blocking generation

`crates/server/src/in_tree/stream.rs` and the blocking path of
`crates/server/src/in_tree.rs`. A streamed request is three parties: a job on a
thread of the worker pool that runs the backend's incremental call
(`run_stream_generation`), a bounded channel of events, and the response body the
HTTP server polls (`stream_generation`). Each takes its steps when it likes, and
the client may go away between any two of them.

The backend is code behind a trait. Its incremental call is a `Generation`: a tree
that says what it does next for every answer of its callback, so it is any call
that ends. JSON text is not built here; a chunk is the structure it is printed from.
-/

namespace CamelidEnterprise.Server

open Foundation

-- ---------------------------------------------------------------------------
-- Responses
-- ---------------------------------------------------------------------------

/-- The error of a response, with its status and `retry-after` header. -/
structure ApiError where
  status : Nat
  code : String
  message : String
  param : Option String
  retryAfter : Option String
deriving DecidableEq, Repr

/-- `ErrorBody::error_type` -/
def ApiError.errorType (error : ApiError) : String :=
  if error.status = 500 then "server_error"
  else if error.status = 501 then "not_implemented"
  else if error.status = 503 then "runtime_unavailable"
  else "invalid_request"

/-- `api_error` -/
def apiError (status : Nat) (code message : String) (param : Option String) : ApiError :=
  ⟨status, code, message, param, none⟩

/-- `engine_post_error` -/
def enginePostError (error : Worker.PostError) : ApiError :=
  match error with
  | .Full =>
    { apiError 503 "engine_queue_full" "the deterministic generation queue is full" none with
      retryAfter := some "1" }
  | .Unavailable =>
    { apiError 503 "generation_worker_unavailable"
        "the deterministic generation worker is unavailable" none with
      retryAfter := some "1" }

/-- `engine_error` -/
def engineError (error : EngineError) : ApiError :=
  match error with
  | .ShapeMismatch message =>
    apiError 400 "context_length_exceeded" message (some "max_tokens")
  | other => apiError 500 "generation_failed" other.display none

/-- `engine_error_parts` -/
def engineErrorParts (error : EngineError) : String × String :=
  match error with
  | .ShapeMismatch message => ("context_length_exceeded", message)
  | other => ("generation_failed", other.display)

/-- How the handlers and the stream name a finish reason. -/
def finishReasonText : FinishReason → String
  | .EndOfGeneration => "stop"
  | .Length => "length"

/-- What `GenerationWorker::run` returns for an accepted job: a job that panics
drops its channel. -/
def runJob (job : EngineResult Completion) :
    Except Worker.PostError (Except EngineError Completion) :=
  match job with
  | .ok completion => .ok (.ok completion)
  | .err error => .ok (.error error)
  | .fault _ => .error .Unavailable

/-- `run_generation` -/
def runGeneration (result : Except Worker.PostError (Except EngineError Completion)) :
    Except ApiError Completion :=
  match result with
  | .ok (.ok completion) => .ok completion
  | .ok (.error error) => .error (engineError error)
  | .error error => .error (enginePostError error)

/-- The choice of a blocking response: the message's content for a chat, the text
for a completion, and the finish reason. -/
structure Choice where
  index : Nat
  text : Str
  finishReason : String
deriving DecidableEq, Repr

/-- The end of `completions` and `chat_completions` without `stream`. -/
def blockingResponse (job : EngineResult Completion) : Except ApiError Choice :=
  match runGeneration (runJob job) with
  | .ok completion => .ok ⟨0, completion.text, finishReasonText completion.finishReason⟩
  | .error error => .error error

-- ---------------------------------------------------------------------------
-- The stream
-- ---------------------------------------------------------------------------

/-- `EVENT_BUFFER` -/
def eventBuffer : Nat := 32

/-- `StreamGenerationEvent` -/
inductive StreamGenerationEvent
  | Delta (text : Str)
  | Finished (finishReason : String)
  | Failed (code message : String)
deriving DecidableEq, Repr

/-- `ChatCompletionStreamChunk` and `CompletionStreamChunk`, with their one choice:
a chat chunk has a role or a content where a completion chunk has a text. -/
structure StreamChunk where
  id : String
  object : String
  created : Nat
  model : Str
  index : Nat
  role : Option String
  content : Option Str
  finishReason : Option String
deriving DecidableEq, Repr

/-- A server-sent event. -/
inductive SseEvent
  | chunk (chunk : StreamChunk)
  | error (code message : String)
  | done
deriving DecidableEq, Repr

/-- What a stream prints into each of its chunks. -/
structure StreamInfo where
  id : String
  model : Str
  chat : Bool
deriving DecidableEq, Repr

/-- The chunks of a stream, up to their choice. -/
def StreamInfo.chunk (info : StreamInfo) (role : Option String) (content : Option Str)
    (finishReason : Option String) : SseEvent :=
  .chunk ⟨info.id, if info.chat then "chat.completion.chunk" else "text_completion", 0, info.model,
    0, role, content, finishReason⟩

/-- The first chunk of a chat. -/
def StreamInfo.role (info : StreamInfo) : SseEvent := info.chunk (some "assistant") none none

/-- The chunk of a delta. -/
def StreamInfo.delta (info : StreamInfo) (text : Str) : SseEvent := info.chunk none (some text) none

/-- The last chunk: its delta is empty for a chat, its text for a completion. -/
def StreamInfo.finish (info : StreamInfo) (finishReason : String) : SseEvent :=
  info.chunk none (if info.chat then none else some []) (some finishReason)

/-- The job: queued in the pool, inside the backend, inside `blocking_send` of a
delta or of the last event, or over, with its end of the channel dropped. -/
inductive Producer
  | queued (call : Generation)
  | calling (call : Generation)
  | sending (text : Str) (next : GenerationControl → Generation)
  | ending (event : StreamGenerationEvent)
  | ended

/-- The response body: before its first event, reading the channel, with `[DONE]` to
yield, at its end, or dropped by the server. -/
inductive Body
  | start
  | reading
  | closing
  | finished
  | dropped
deriving DecidableEq, Repr

/-- A streamed request. -/
structure Stream where
  info : StreamInfo
  producer : Producer
  buffer : List StreamGenerationEvent
  body : Body

/-- What a step shows. -/
inductive Event
  | silent
  /-- `on_token` answered the backend -/
  | told (control : GenerationControl)
  /-- the body yielded an event -/
  | yielded (event : SseEvent)
deriving DecidableEq, Repr

/-- `event_sender.is_closed()` -/
def Stream.isClosed (s : Stream) : Bool := decide (s.body = .dropped)

/-- The last event of a call that returned; none for one that was cancelled or that
panicked. -/
def lastEvent (result : EngineResult IncrementalGeneration) : Option StreamGenerationEvent :=
  match result with
  | .ok (.Completed completion) => some (.Finished (finishReasonText completion.finishReason))
  | .ok .Cancelled => none
  | .err error => some (.Failed (engineErrorParts error).1 (engineErrorParts error).2)
  | .fault _ => none

/-- The next step of the job, if it has one: a full channel blocks it. -/
def Stream.produce (s : Stream) : Option (Event × Stream) :=
  match s.producer with
  | .queued call =>
    if s.isClosed then some (.silent, { s with producer := .ended })
    else some (.silent, { s with producer := .calling call })
  | .calling (.token delta next) =>
    if s.isClosed then some (.told .Cancel, { s with producer := .calling (next .Cancel) })
    else if delta.text = [] then
      some (.told .Continue, { s with producer := .calling (next .Continue) })
    else some (.silent, { s with producer := .sending delta.text next })
  | .calling (.returned result) =>
    match lastEvent result with
    | some event => some (.silent, { s with producer := .ending event })
    | none => some (.silent, { s with producer := .ended })
  | .sending text next =>
    if s.isClosed then some (.told .Cancel, { s with producer := .calling (next .Cancel) })
    else if s.buffer.length < eventBuffer then
      some (.told .Continue,
        { s with buffer := s.buffer ++ [.Delta text], producer := .calling (next .Continue) })
    else none
  | .ending event =>
    if s.isClosed then some (.silent, { s with producer := .ended })
    else if s.buffer.length < eventBuffer then
      some (.silent, { s with buffer := s.buffer ++ [event], producer := .ended })
    else none
  | .ended => none

/-- The event for a job that is over without having said so. -/
def workerFailed : SseEvent :=
  .error "generation_worker_failed" "generation worker ended before completing the stream"

/-- The next event of the body, if there is one: an empty channel keeps it waiting
as long as the job can still send. -/
def Stream.poll (s : Stream) : Option (Event × Stream) :=
  match s.body with
  | .start =>
    if s.info.chat then some (.yielded s.info.role, { s with body := .reading })
    else some (.silent, { s with body := .reading })
  | .reading =>
    match s.buffer with
    | .Delta text :: rest => some (.yielded (s.info.delta text), { s with buffer := rest })
    | .Finished finishReason :: rest =>
      some (.yielded (s.info.finish finishReason), { s with buffer := rest, body := .closing })
    | .Failed code message :: rest =>
      some (.yielded (.error code message), { s with buffer := rest, body := .closing })
    | [] =>
      match s.producer with
      | .ended => some (.yielded workerFailed, { s with body := .closing })
      | _ => none
  | .closing => some (.yielded .done, { s with body := .finished })
  | .finished => none
  | .dropped => none

/-- What can happen next. -/
inductive Action
  | produce
  | poll
  /-- the client goes away: the server drops the body, and the channel's end in it -/
  | drop
  | idle
deriving DecidableEq, Repr

/-- The steps of a streamed request. -/
inductive Step : Stream → Action → Event → Stream → Prop
  | produce {s s' : Stream} {event : Event} (hstep : s.produce = some (event, s')) :
      Step s .produce event s'
  | poll {s s' : Stream} {event : Event} (hstep : s.poll = some (event, s')) :
      Step s .poll event s'
  | drop {s : Stream} : Step s .drop .silent { s with body := .dropped, buffer := [] }
  | idle {s : Stream} : Step s .idle .silent s

/-- `stream_generation` once its job was accepted. -/
def stream (info : StreamInfo) (call : Generation) : Machine Stream Action Event where
  start s := s = ⟨info, .queued call, [], .start⟩
  step := Step

end CamelidEnterprise.Server

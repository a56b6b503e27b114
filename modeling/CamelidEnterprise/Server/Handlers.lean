import Mathlib.Algebra.Ring.Nat
import CamelidEnterprise.Server.Chat
import CamelidEnterprise.Server.Stream
import CamelidEnterprise.Server.Surface

/-!
# Camelid Enterprise — the generation handlers

`crates/server/src/in_tree.rs`: `completions` and `chat_completions`, from the JSON of
a request to the generation it asks for. Both requests are read by a derived reader
with a flattened rest: a repeated known field is an error, every other field is kept
and then refused.

A `Replica` is what a request meets: the body filter, then the handler of its path.

What is assumed, and what is left out:

* the JSON library is a parameter, and with it what number a numeral is read as;
* a response is the part of it that depends on the request: its id, its times and its
  timings are left out.
-/

namespace CamelidEnterprise.Server

open Foundation Foundation.Json Foundation.Http Foundation.Text

/-- `DEFAULT_MAX_TOKENS` -/
def defaultMaxTokens : Nat := 16

-- ---------------------------------------------------------------------------
-- Reading a request
-- ---------------------------------------------------------------------------

/-- An optional field of a derived reader: absent or `null` is none, a second member
of the name is an error. -/
def readField {α : Type} (read : Document → Option α) (name : Text)
    (members : List (Text × Document)) : Option (Option α) :=
  match members.filter fun member => member.1 = name with
  | [] => some none
  | [(_, .null)] => some none
  | [(_, value)] => (read value).map some
  | _ => none

def readString : Document → Option Text
  | .string s => some s
  | _ => none

def readBool : Document → Option Bool
  | .bool b => some b
  | _ => none

/-- A `u32`. -/
def readU32 : Document → Option Nat
  | .number (.PosInt n) => if n < 2 ^ 32 then some n else none
  | _ => none

/-- `temperature != 0.0` of a number read as an `f32`: a double of at most half the
smallest subnormal rounds to zero. -/
def isNonzeroF32 : Number → Bool
  | .PosInt n => decide (n ≠ 0)
  | .NegInt n => decide (n ≠ 0)
  | .Float bits => decide (873 * 2 ^ 52 < bits % 2 ^ 63)

def readNumber : Document → Option Number
  | .number n => some n
  | _ => none

/-- `ChatMessage`: both fields, and no other. -/
def readChatMessage : Document → Option ChatMessage
  | .object members => do
    let role ← readField readString "role".toList members
    let content ← readField readString "content".toList members
    let plain := members.all fun member =>
      member.1 = "role".toList || member.1 = "content".toList
    let role ← role
    let content ← content
    if plain then some ⟨role, content⟩ else none
  | .array [.string role, .string content] => some ⟨role, content⟩
  | _ => none

def readChatMessages : Document → Option (List ChatMessage)
  | .array items => items.mapM readChatMessage
  | _ => none

/-- `CompletionRequest`; of the unsupported fields only the names are used, which a
map keeps sorted. -/
structure CompletionRequest where
  model : Option Str
  prompt : Option Str
  stream : Option Bool
  maxTokens : Option Nat
  temperature : Option Number
  unsupportedFields : List Str
deriving DecidableEq, Repr

/-- `ChatCompletionRequest` -/
structure ChatCompletionRequest where
  model : Option Str
  messages : Option (List ChatMessage)
  stream : Option Bool
  maxTokens : Option Nat
  temperature : Option Number
  unsupportedFields : List Str
deriving DecidableEq, Repr

/-- The names of the flattened rest. -/
def unsupported (known : List Text) (members : List (Text × Document)) : List Str :=
  (collect [] (members.filter fun member => !known.contains member.1)).map Prod.fst

def completionFields : List Text :=
  [Surface.modelKey, "prompt".toList, "stream".toList, "max_tokens".toList, "temperature".toList]

def chatFields : List Text :=
  [Surface.modelKey, "messages".toList, "stream".toList, "max_tokens".toList, "temperature".toList]

def readCompletionRequest (members : List (Text × Document)) : Option CompletionRequest := do
  let model ← readField readString Surface.modelKey members
  let prompt ← readField readString "prompt".toList members
  let stream ← readField readBool "stream".toList members
  let maxTokens ← readField readU32 "max_tokens".toList members
  let temperature ← readField readNumber "temperature".toList members
  some ⟨model, prompt, stream, maxTokens, temperature, unsupported completionFields members⟩

def readChatCompletionRequest (members : List (Text × Document)) :
    Option ChatCompletionRequest := do
  let model ← readField readString Surface.modelKey members
  let messages ← readField readChatMessages "messages".toList members
  let stream ← readField readBool "stream".toList members
  let maxTokens ← readField readU32 "max_tokens".toList members
  let temperature ← readField readNumber "temperature".toList members
  some ⟨model, messages, stream, maxTokens, temperature, unsupported chatFields members⟩

/-- `Json<T>`: the extractor looks at the content type before it reads the body, and
says in its own words what was wrong. -/
structure Extractor where
  isJson : HeaderMap → Bool
  rejection : Request → String

def Extractor.extract {α : Type} (extractor : Extractor) (parser : Parser)
    (read : List (Text × Document) → Option α) (req : Request) : Except String α :=
  if extractor.isJson req.headers then
    match parser.document req.body.bytes with
    | some (.object members) =>
      match read members with
      | some request => .ok request
      | none => .error (extractor.rejection req)
    | _ => .error (extractor.rejection req)
  else .error (extractor.rejection req)

-- ---------------------------------------------------------------------------
-- The handlers
-- ---------------------------------------------------------------------------

/-- A generation a handler starts: its response says that `modelId` answered. -/
structure Answer where
  modelId : Str
  input : GenerationInput
  maxNewTokens : Nat
  stream : Bool
  chat : Bool
deriving DecidableEq, Repr

/-- What a handler knows of its backend. -/
structure ReplicaState where
  modelId : Str
  chatTemplate : Option ChatTemplate
  renderer : ChatRenderer

def joinNames (names : List Str) : Str := [',', ' '].intercalate names

def malformedJson (message : String) : ApiError := apiError 400 "malformed_json" message none

def modelNotFound (requested : Str) : ApiError :=
  apiError 404 "model_not_found" ("model '" ++ display requested ++ "' is not loaded") (some "model")

def unsupportedSampling : ApiError :=
  apiError 400 "unsupported_sampling" "the deterministic lane accepts only temperature:0"
    (some "temperature")

/-- `completions`, up to the generation. -/
def completions (state : ReplicaState) (payload : Except String CompletionRequest) :
    Except ApiError Answer :=
  match payload with
  | .error error => .error (malformedJson error)
  | .ok request =>
    if request.unsupportedFields ≠ [] then
      .error (apiError 400 "unsupported_parameter"
        ("unsupported completion field(s): " ++ display (joinNames request.unsupportedFields))
        (some "body"))
    else if request.model.any fun model => model ≠ state.modelId then
      .error (modelNotFound (request.model.getD []))
    else
      match request.prompt with
      | none =>
        .error (apiError 400 "missing_required_parameter" "prompt is required" (some "prompt"))
      | some prompt =>
        if request.temperature.any isNonzeroF32 then .error unsupportedSampling
        else
          .ok ⟨state.modelId, .RawCompletion prompt, request.maxTokens.getD defaultMaxTokens,
            request.stream.getD false, false⟩

/-- The first message with a role that is not accepted, with its index. -/
def unsupportedRole : List ChatMessage → Nat → Option (Nat × Str)
  | [], _ => none
  | message :: rest, index =>
    if message.trimmedRole ∈ acceptedRoles then unsupportedRole rest (index + 1)
    else some (index, message.trimmedRole)

/-- `chat_completions`, up to the generation. -/
def chatCompletions (state : ReplicaState) (payload : Except String ChatCompletionRequest) :
    Except ApiError Answer :=
  match payload with
  | .error error => .error (malformedJson error)
  | .ok request =>
    if request.unsupportedFields ≠ [] then
      .error (apiError 400 "unsupported_parameter"
        ("unsupported chat completion field(s): " ++ display (joinNames request.unsupportedFields))
        (some "body"))
    else if request.model.any fun model => model ≠ state.modelId then
      .error (modelNotFound (request.model.getD []))
    else
      match request.messages with
      | none =>
        .error (apiError 400 "missing_required_parameter" "messages is required" (some "messages"))
      | some [] =>
        .error (apiError 400 "invalid_messages" "messages must contain at least one chat message"
          (some "messages"))
      | some messages =>
        match unsupportedRole messages 0 with
        | some (index, role) =>
          .error (apiError 400 "unsupported_message_role"
            ("messages[" ++ toString index ++ "] has unsupported role '" ++ display role ++ "'")
            (some "messages"))
        | none =>
          if request.temperature.any isNonzeroF32 then .error unsupportedSampling
          else
            match state.chatTemplate with
            | none =>
              .error (apiError 422 "unsupported_chat_template"
                "the loaded tokenizer has no embedded chat template; chat fails closed"
                (some "messages"))
            | some template =>
              match renderChatPrompt state.renderer messages template state.modelId with
              | .error error =>
                .error (apiError 422 "unsupported_chat_template"
                  ("the embedded chat template could not render this request: " ++ display error)
                  (some "messages"))
              | .ok rendered =>
                .ok ⟨state.modelId,
                  .RenderedChat rendered.text rendered.addSpecial rendered.parseSpecial,
                  request.maxTokens.getD defaultMaxTokens, request.stream.getD false, true⟩

-- ---------------------------------------------------------------------------
-- A replica
-- ---------------------------------------------------------------------------

/-- What a generation request meets. The engine's key of the loaded weights is the
name the handlers answer to. -/
structure Replica where
  served : Surface.ServedModel
  state : ReplicaState
  extractor : Extractor
  sameModel : served.id = state.modelId

/-- Why a replica does not answer. -/
inductive ReplicaRefusal
  | filtered (refusal : Surface.Refusal)
  | handled (error : ApiError)
deriving DecidableEq, Repr

/-- `GET /v1/models` -/
def Replica.models (replica : Replica) : List Str := [replica.state.modelId]

/-- The handler of a path. -/
def Replica.handle (parser : Parser) (replica : Replica) (req : Request) :
    Except ApiError Answer :=
  if req.path = "/v1/chat/completions" then
    chatCompletions replica.state
      (replica.extractor.extract parser readChatCompletionRequest req)
  else
    completions replica.state (replica.extractor.extract parser readCompletionRequest req)

/-- A generation request through the filter and the handler. -/
def Replica.answer (parser : Parser) (replica : Replica) (req : Request) :
    Except ReplicaRefusal Answer :=
  match Surface.pinGenerationToTheServedModel parser replica.served req with
  | .refused refusal => .error (.filtered refusal)
  | .forwarded req' =>
    match replica.handle parser req' with
    | .error error => .error (.handled error)
    | .ok answer => .ok answer

/-- Handlers answer as the model they were loaded with. -/
theorem completions_modelId {state : ReplicaState} {payload : Except String CompletionRequest}
    {answer : Answer} (h : completions state payload = .ok answer) :
    answer.modelId = state.modelId := by
  unfold completions at h
  split at h
  · cases h
  split at h
  · cases h
  split at h
  · cases h
  split at h
  · cases h
  split at h
  · cases h
  · rw [← Except.ok.inj h]

theorem chatCompletions_modelId {state : ReplicaState}
    {payload : Except String ChatCompletionRequest} {answer : Answer}
    (h : chatCompletions state payload = .ok answer) : answer.modelId = state.modelId := by
  unfold chatCompletions at h
  split at h
  · cases h
  split at h
  · cases h
  split at h
  · cases h
  split at h
  · cases h
  · cases h
  split at h
  · cases h
  split at h
  · cases h
  split at h
  · cases h
  split at h
  · cases h
  · rw [← Except.ok.inj h]

theorem Replica.answer_modelId {parser : Parser} {replica : Replica} {req : Request}
    {answer : Answer} (h : replica.answer parser req = .ok answer) :
    answer.modelId = replica.served.id := by
  unfold Replica.answer at h
  split at h
  · cases h
  · rename_i req' _
    split at h
    · cases h
    · rename_i answer' hanswer
      obtain rfl := Except.ok.inj h
      rw [replica.sameModel]
      unfold Replica.handle at hanswer
      split at hanswer
      · exact chatCompletions_modelId hanswer
      · exact completions_modelId hanswer

end CamelidEnterprise.Server

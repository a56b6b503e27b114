import CamelidEnterprise.Foundation.Text
import CamelidEnterprise.Server.Surface

/-!
# Camelid Enterprise — where the gateway sends a request

`crates/gateway/src/lib.rs`, routing. A transparent gateway has one upstream. A
gateway with a model catalog reads the `model` of a generation request out of its
body and forwards the body as it came; discovery it answers itself, and everything
else it refuses.

A catalog is verified against what its upstreams say they serve before it is used:
`VerifiedModelCatalog` carries the result.

What is assumed, and what is left out:

* what an origin says it serves is a parameter (`Discovery`), and so is the JSON library;
* there is no deadline: a body that comes too late is one that breaks off;
* an answer of the gateway's own (`LocalResponse`) is not printed.
-/

namespace CamelidEnterprise.Gateway

open Foundation Foundation.Json Foundation.Http Foundation.Text

-- ---------------------------------------------------------------------------
-- The catalog
-- ---------------------------------------------------------------------------

/-- `UpstreamOrigin`; the scheme is always `http`. -/
structure UpstreamOrigin where
  authority : String
deriving DecidableEq, Repr

/-- `ModelCatalog`: a sorted map. -/
structure ModelCatalog where
  routes : List (Str × UpstreamOrigin)
deriving DecidableEq, Repr

/-- `char::is_control` -/
def isControl (c : Char) : Bool := c.toNat < 0x20 || (0x7F ≤ c.toNat && c.toNat ≤ 0x9F)

/-- The loop of `ModelCatalog::new`. -/
def catalogInsertAll : List (Str × UpstreamOrigin) → List (Str × UpstreamOrigin) →
    Except String (List (Str × UpstreamOrigin))
  | catalog, [] => .ok catalog
  | catalog, (modelId, upstream) :: routes =>
    if modelId = [] then .error "model catalog entries must have a non-empty model id"
    else if modelId.any isControl then
      .error ("model catalog id " ++ debug modelId ++ " contains a control character")
    else if (Map.get modelId catalog).isSome then
      .error ("model catalog contains duplicate model id " ++ debug modelId)
    else catalogInsertAll (Map.insert modelId upstream catalog) routes

/-- `ModelCatalog::new` -/
def ModelCatalog.new (routes : List (Str × UpstreamOrigin)) : Except String ModelCatalog :=
  match catalogInsertAll [] routes with
  | .error error => .error error
  | .ok [] => .error "model catalog must contain at least one model route"
  | .ok catalog => .ok ⟨catalog⟩

/-- The ids a replica pool lists under `/v1/models`, or why they could not be had. -/
abbrev Discovery := UpstreamOrigin → Except String (List Str)

/-- The ids of each origin, origins in the order of their first id. -/
def groupByOrigin : List (Str × UpstreamOrigin) → List (UpstreamOrigin × List Str) →
    List (UpstreamOrigin × List Str)
  | [], origins => origins
  | (modelId, origin) :: routes, origins =>
    if origins.any fun entry => entry.1 = origin then
      groupByOrigin routes <| origins.map fun entry =>
        if entry.1 = origin then (entry.1, entry.2 ++ [modelId]) else entry
    else groupByOrigin routes (origins ++ [(origin, [modelId])])

/-- The check of one origin. -/
def verifyOrigin (discover : Discovery) (origin : UpstreamOrigin) (configuredIds : List Str) :
    Except String Unit :=
  match discover origin with
  | .error error => .error error
  | .ok discovered =>
    match configuredIds.find? fun modelId => !discovered.contains modelId with
    | some modelId =>
      .error ("catalog model id " ++ debug modelId ++ " is not advertised by http://" ++
        origin.authority)
    | none => .ok ()

/-- The check of every origin, one after the other. -/
def verifyOrigins (discover : Discovery) : List (UpstreamOrigin × List Str) → Except String Unit
  | [] => .ok ()
  | (origin, configuredIds) :: origins =>
    match verifyOrigin discover origin configuredIds with
    | .error error => .error error
    | .ok () => verifyOrigins discover origins

/-- `VerifiedModelCatalog`: every id is listed by the pool it is routed to. -/
structure VerifiedModelCatalog (discover : Discovery) where
  catalog : ModelCatalog
  advertised : ∀ modelId origin, (modelId, origin) ∈ catalog.routes →
    ∃ discovered, discover origin = .ok discovered ∧ modelId ∈ discovered

theorem verifyOrigins_ok {discover : Discovery} {origins : List (UpstreamOrigin × List Str)}
    (h : verifyOrigins discover origins = .ok ()) : ∀ entry ∈ origins, ∀ modelId ∈ entry.2,
      ∃ discovered, discover entry.1 = .ok discovered ∧ modelId ∈ discovered := by
  induction origins with
  | nil => intro entry hentry; exact absurd hentry List.not_mem_nil
  | cons first rest ih =>
    obtain ⟨origin, configuredIds⟩ := first
    unfold verifyOrigins at h
    split at h
    · cases h
    · rename_i hfirst
      intro entry hentry modelId hmodel
      rcases List.mem_cons.mp hentry with rfl | hrest
      · unfold verifyOrigin at hfirst
        split at hfirst
        · cases hfirst
        · rename_i discovered hdiscovered
          split at hfirst
          · cases hfirst
          · rename_i hnone
            refine ⟨discovered, hdiscovered, ?_⟩
            have hall := List.find?_eq_none.mp hnone modelId hmodel
            simpa using hall
      · exact ih h entry hrest modelId hmodel

/-- Grouping loses no id. -/
theorem mem_groupByOrigin {routes : List (Str × UpstreamOrigin)} :
    ∀ {origins : List (UpstreamOrigin × List Str)} {modelId : Str} {origin : UpstreamOrigin},
      ((modelId, origin) ∈ routes ∨ ∃ ids, (origin, ids) ∈ origins ∧ modelId ∈ ids) →
      ∃ ids, (origin, ids) ∈ groupByOrigin routes origins ∧ modelId ∈ ids := by
  induction routes with
  | nil =>
    intro origins modelId origin h
    exact h.resolve_left List.not_mem_nil
  | cons first rest ih =>
    obtain ⟨firstId, firstOrigin⟩ := first
    intro origins modelId origin h
    unfold groupByOrigin
    split
    · rename_i hknown
      refine ih ?_
      rcases h with h | ⟨ids, hids, hmodel⟩
      · rcases List.mem_cons.mp h with heq | hrest
        · -- the id joins those of its origin
          obtain ⟨rfl, rfl⟩ := Prod.mk.inj heq
          obtain ⟨⟨known, ids⟩, hentry, hsame⟩ := List.any_eq_true.mp hknown
          obtain rfl : known = origin := of_decide_eq_true hsame
          refine Or.inr ⟨ids ++ [modelId], List.mem_map.mpr ⟨_, hentry, ?_⟩, by simp⟩
          simp
        · exact Or.inl hrest
      · by_cases hsame : origin = firstOrigin
        · refine Or.inr ⟨ids ++ [firstId], List.mem_map.mpr ⟨_, hids, ?_⟩,
            List.mem_append_left _ hmodel⟩
          simp [hsame]
        · refine Or.inr ⟨ids, List.mem_map.mpr ⟨_, hids, ?_⟩, hmodel⟩
          simp [hsame]
    · refine ih ?_
      rcases h with h | ⟨ids, hids, hmodel⟩
      · rcases List.mem_cons.mp h with heq | hrest
        · obtain ⟨rfl, rfl⟩ := Prod.mk.inj heq
          exact Or.inr ⟨[modelId], by simp, by simp⟩
        · exact Or.inl hrest
      · exact Or.inr ⟨ids, List.mem_append_left _ hids, hmodel⟩

/-- `verify_backend_model_ids` -/
def ModelCatalog.verifyBackendModelIds (catalog : ModelCatalog) (discover : Discovery) :
    Except String (VerifiedModelCatalog discover) :=
  match h : verifyOrigins discover (groupByOrigin catalog.routes []) with
  | .error error => .error error
  | .ok () => .ok
      { catalog
        advertised := fun modelId origin hroute => by
          obtain ⟨ids, hids, hmodel⟩ : ∃ ids, (origin, ids) ∈ groupByOrigin catalog.routes [] ∧
            modelId ∈ ids := mem_groupByOrigin (Or.inl hroute)
          exact verifyOrigins_ok h _ hids modelId hmodel }

/-- `route` -/
def VerifiedModelCatalog.route {discover : Discovery} (catalog : VerifiedModelCatalog discover)
    (modelId : Str) : Option UpstreamOrigin :=
  Map.get modelId catalog.catalog.routes

/-- `model_ids` -/
def VerifiedModelCatalog.modelIds {discover : Discovery} (catalog : VerifiedModelCatalog discover) :
    List Str :=
  catalog.catalog.routes.map Prod.fst

-- ---------------------------------------------------------------------------
-- Responses
-- ---------------------------------------------------------------------------

/-- An error response of the gateway. A `retry-after` is drawn from a range. -/
structure ErrorResponse where
  status : Nat
  message : String
  errorType : String
  code : Option String
  param : Option String
  retryAfter : Option (Nat × Nat)
deriving DecidableEq, Repr

/-- `gateway_api_error` -/
def gatewayApiError (status : Nat) (message errorType : String) (code param : Option String) :
    ErrorResponse :=
  ⟨status, message, errorType, code, param, none⟩

/-- `gateway_error` -/
def gatewayError (status : Nat) (message : String) : ErrorResponse :=
  gatewayApiError status message "gateway_error" none none

/-- `RETRY_AFTER_JITTER_SECONDS` -/
def retryAfterJitterSeconds : Nat × Nat := (1, 3)

/-- `overloaded` -/
def overloaded (message : String) : ErrorResponse :=
  { gatewayError 503 message with retryAfter := some retryAfterJitterSeconds }

/-- `RoutingRefusal` -/
structure RoutingRefusal where
  auditReason : String
  response : ErrorResponse
deriving DecidableEq, Repr

/-- `unsupported_model_selection_media_type_refusal` -/
def unsupportedModelSelectionMediaTypeRefusal : RoutingRefusal :=
  ⟨"unsupported_model_selection_media_type",
    gatewayApiError 415 "model routing requires an application/json request body"
      "invalid_request" (some "unsupported_media_type") none⟩

/-- `model_selection_body_too_large_refusal` -/
def modelSelectionBodyTooLargeRefusal : RoutingRefusal :=
  ⟨"model_selection_body_too_large",
    gatewayApiError 413 "request body exceeds the model-selection limit" "invalid_request"
      (some "request_too_large") none⟩

/-- `unknown_model_refusal` -/
def unknownModelRefusal : RoutingRefusal :=
  ⟨"unknown_model",
    gatewayApiError 404 "requested model is not available from this gateway" "invalid_request"
      (some "model_not_found") (some "model")⟩

def bodyUnreadableRefusal : RoutingRefusal :=
  ⟨"model_selection_body_unreadable",
    gatewayApiError 400 "gateway could not read the request body" "invalid_request"
      (some "unreadable_request_body") none⟩

def bodyTimeoutRefusal : RoutingRefusal :=
  ⟨"model_selection_body_timeout",
    gatewayApiError 408 "request body did not arrive within the model-selection deadline"
      "invalid_request" (some "request_body_timeout") none⟩

def malformedModelSelectionRefusal : RoutingRefusal :=
  ⟨"malformed_model_selection",
    gatewayApiError 400 "request body is not a JSON object" "invalid_request"
      (some "malformed_json") none⟩

def missingModelRefusal : RoutingRefusal :=
  ⟨"missing_model",
    gatewayApiError 400 "request must specify a non-empty model" "invalid_request"
      (some "model_required") (some "model")⟩

def modelRoutingUnsupportedRefusal : RoutingRefusal :=
  ⟨"model_routing_unsupported",
    gatewayApiError 501 "this endpoint cannot be routed by a multi-model gateway" "not_implemented"
      (some "model_routing_unsupported") none⟩

-- ---------------------------------------------------------------------------
-- The head of a generation request
-- ---------------------------------------------------------------------------

/-- `ModelSelectionLimits`, as far as reading one body uses it. -/
structure ModelSelectionLimits where
  maxBodyBytes : Nat
  positive : 0 < maxBodyBytes

/-- `is_catalog_generation_route` -/
def isCatalogGenerationRoute (req : Request) : Bool :=
  req.method = "POST" && (req.path = "/v1/completions" || req.path = "/v1/chat/completions")

/-- The media type in a content type: what stands before the first `;`. -/
def mediaType (value : Str) : Str := (trim (value.takeWhile (· ≠ ';'))).map Char.toLower

/-- `has_json_content_type` -/
def hasJsonContentType (headers : HeaderMap) : Bool :=
  match (headers.get "content-type").bind toStr with
  | none => false
  | some value =>
    mediaType value == "application/json".toList ||
      ("application/".toList.isPrefixOf (mediaType value) &&
        "+json".toList.isSuffixOf (mediaType value))

/-- The digits of a number, most significant first. -/
def parseDigits : Nat → Str → Option Nat
  | n, [] => some n
  | n, c :: cs =>
    if '0' ≤ c ∧ c ≤ '9' then
      let next := 10 * n + (c.toNat - '0'.toNat)
      if next < 2 ^ 64 then parseDigits next cs else none
    else none

/-- `parse::<usize>()` -/
def parseUsize : Str → Option Nat
  | [] => none
  | ['+'] => none
  | '+' :: digits => parseDigits 0 digits
  | digits => parseDigits 0 digits

/-- `declared_content_length`: none also for zero. -/
def declaredContentLength (headers : HeaderMap) : Option Nat :=
  (((headers.get "content-length").bind toStr).bind fun value => parseUsize (trim value)).filter
    fun declared => decide (declared ≠ 0)

/-- `model_selection_head_refusal` -/
def modelSelectionHeadRefusal (headers : HeaderMap) (limits : ModelSelectionLimits) :
    Option RoutingRefusal :=
  if !hasJsonContentType headers then some unsupportedModelSelectionMediaTypeRefusal
  else if (declaredContentLength headers).any fun declared => limits.maxBodyBytes < declared then
    some modelSelectionBodyTooLargeRefusal
  else none

-- ---------------------------------------------------------------------------
-- Its body
-- ---------------------------------------------------------------------------

/-- `next_value::<Option<String>>` -/
def nextOptionString (parser : Parser) (raw : List UInt8) : Option (Option Text) :=
  match parser.document raw with
  | some .null => some none
  | some (.string s) => some (some s)
  | _ => none

/-- `ModelSelectionVisitor::visit_map`; `model` is what was found so far. -/
def visitMap (parser : Parser) : Option (Option Text) → List (Text × List UInt8) →
    Option (Option Text)
  | model, [] => some (model.getD none)
  | model, (key, raw) :: entries =>
    if key ≠ Surface.modelKey then visitMap parser model entries
    else if model.isSome then none
    else
      match nextOptionString parser raw with
      | none => none
      | some value => visitMap parser (some value) entries

/-- `serde_json::from_slice::<ModelSelection>` -/
def readModelSelection (parser : Parser) (body : List UInt8) : Option (Option Text) :=
  (parser.entries body).bind (visitMap parser none)

/-- `RoutedRequest`: where the request goes, or what the gateway answers itself. -/
inductive LocalResponse
  | models (ids : List Str)
  | model (id : Str)
deriving DecidableEq, Repr

inductive RoutedRequest
  | Forward (upstream : UpstreamOrigin) (modelId : Option Str)
  | Local (response : LocalResponse) (modelId : Option Str)
deriving DecidableEq, Repr

/-- `RoutedRequest::model_id` -/
def RoutedRequest.modelId : RoutedRequest → Option Str
  | .Forward _ modelId => modelId
  | .Local _ modelId => modelId

/-- `select_catalog_upstream`, with whether the body missed its deadline: the route,
and the request to forward. -/
def selectCatalogUpstream {discover : Discovery} (parser : Parser)
    (catalog : VerifiedModelCatalog discover) (limits : ModelSelectionLimits) (req : Request)
    (late : Bool) : Except RoutingRefusal (RoutedRequest × Request) :=
  match modelSelectionHeadRefusal req.headers limits with
  | some refusal => .error refusal
  | none =>
    if late then .error bodyTimeoutRefusal
    else
      match toBytes req.body limits.maxBodyBytes with
      | .error .LengthLimit => .error modelSelectionBodyTooLargeRefusal
      | .error .Broken => .error bodyUnreadableRefusal
      | .ok body =>
        match readModelSelection parser body with
        | none => .error malformedModelSelectionRefusal
        | some model =>
          match model.filter fun modelId => decide (modelId ≠ []) with
          | none => .error missingModelRefusal
          | some modelId =>
            match catalog.route modelId with
            | none => .error unknownModelRefusal
            | some upstream =>
              .ok (.Forward upstream (some modelId), { req with body := .whole body })

-- ---------------------------------------------------------------------------
-- Routing
-- ---------------------------------------------------------------------------

/-- `UpstreamRouting` -/
inductive UpstreamRouting (discover : Discovery)
  | Passthrough (upstream : UpstreamOrigin)
  | Catalog (catalog : VerifiedModelCatalog discover) (limits : ModelSelectionLimits)

/-- `resolve_route`; `detail` is the id in the path of a model detail request. -/
def resolveRoute {discover : Discovery} (parser : Parser) (routing : UpstreamRouting discover)
    (req : Request) (detail : Option Str) (late : Bool) :
    Except RoutingRefusal (RoutedRequest × Request) :=
  match routing with
  | .Passthrough upstream => .ok (.Forward upstream none, req)
  | .Catalog catalog limits =>
    if (req.method = "GET" ∨ req.method = "HEAD") ∧ req.path = "/v1/models" then
      .ok (.Local (.models catalog.modelIds) none, req)
    else
      match (if req.method = "GET" ∨ req.method = "HEAD" then detail else none) with
      | some modelId =>
        if (catalog.route modelId).isSome then .ok (.Local (.model modelId) (some modelId), req)
        else .error unknownModelRefusal
      | none =>
        if isCatalogGenerationRoute req then
          selectCatalogUpstream parser catalog limits req late
        else .error modelRoutingUnsupportedRefusal

/-- `catalog_selection`: whether the gateway reads the body of the request. -/
def UpstreamRouting.selects {discover : Discovery} (routing : UpstreamRouting discover)
    (req : Request) : Bool :=
  match routing with
  | .Catalog _ _ => isCatalogGenerationRoute req
  | .Passthrough _ => false

end CamelidEnterprise.Gateway

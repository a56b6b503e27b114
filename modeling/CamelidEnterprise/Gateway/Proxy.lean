import Mathlib.Algebra.Ring.Nat
import CamelidEnterprise.Foundation.Machine
import CamelidEnterprise.Gateway.Selection

/-!
# Camelid Enterprise — one request through the gateway

`proxy_request` of `crates/gateway/src/lib.rs`: authentication, the body of a routed
request, quota, admission, the upstream, and then the response body, which outlives
the handler and owns the admission permit and the usage record.

A handler runs from one `await` to the next in one step. What it awaits is an event
that may have any outcome; at every `await`, and while the response body is alive,
the server may drop what it holds. What is charged and recorded for a request is in
its `Books`.

What is assumed, and what is left out:

* the client, the upstream and the deadlines are outside: a wait may end in any of its
  ways, at any time;
* whether the address of an upstream can be written into a URI is a parameter;
* of a refusal its status and its audit reason are kept, and not the text of the answer.
-/

namespace CamelidEnterprise.Gateway

open Foundation Foundation.Json Foundation.Http Foundation.Text

-- ---------------------------------------------------------------------------
-- Who asks
-- ---------------------------------------------------------------------------

/-- `AuthenticatedContext` -/
structure AuthenticatedContext where
  principalId : Str
  organizationId : Str
deriving DecidableEq, Repr

/-- `AuthRefusal` -/
inductive AuthRefusal
  | MissingToken
  | InvalidToken
  | ExpiredToken
  | StoreUnavailable
deriving DecidableEq, Repr

/-- `audit_reason` -/
def AuthRefusal.auditReason : AuthRefusal → String
  | .MissingToken => "missing_token"
  | .InvalidToken => "invalid_token"
  | .ExpiredToken => "expired_token"
  | .StoreUnavailable => "identity_store_unavailable"

/-- `status` -/
def AuthRefusal.status : AuthRefusal → Nat
  | .StoreUnavailable => 500
  | _ => 401

/-- `bearer_token` -/
def bearerToken (headers : HeaderMap) : Option Str :=
  match (headers.get "authorization").bind toStr with
  | none => none
  | some value =>
    let scheme := value.takeWhile fun c => !whiteSpace c
    match value.drop scheme.length with
    | [] => none
    | _ :: rest =>
      if scheme.map Char.toLower ≠ "bearer".toList then none
      else if trim rest = [] then none
      else some (trim rest)

/-- `OrgQuota`: a counter of this process answers at once, the shared one is awaited. -/
inductive OrgQuota
  | InProcess
  | Platform
deriving DecidableEq, Repr

/-- `GatewayAuth` -/
inductive GatewayAuth
  | Disabled
  | RequireToken (quota : Option OrgQuota) (usage : Bool)
deriving DecidableEq, Repr

/-- `GatewayState`, with what it is built from: the JSON library, and whether the URI
of a request can be put behind an origin. -/
structure GatewayState (discover : Discovery) where
  routing : UpstreamRouting discover
  auth : GatewayAuth
  audit : Bool
  parser : Parser
  requestUri : UpstreamOrigin → Request → Bool

/-- The quota of the gateway. -/
def GatewayAuth.quota : GatewayAuth → Option OrgQuota
  | .Disabled => none
  | .RequireToken quota _ => quota

/-- Whether the gateway has a usage log. -/
def GatewayAuth.usage : GatewayAuth → Bool
  | .Disabled => false
  | .RequireToken _ usage => usage

-- ---------------------------------------------------------------------------
-- Records
-- ---------------------------------------------------------------------------

/-- The line of `write_audit_record`, but for its time. -/
structure AuditLine where
  requestId : Str
  principal : Option Str
  organization : Option Str
  reason : Option String
  method : String
  path : String
  modelId : Option Str
  status : Nat
deriving DecidableEq, Repr

/-- `RequestBodyMetrics` -/
structure RequestBodyMetrics where
  bytes : Nat
  completed : Bool
deriving DecidableEq, Repr

/-- `completed_bytes` -/
def RequestBodyMetrics.completedBytes (metrics : RequestBodyMetrics) : Option Nat :=
  if metrics.completed then some metrics.bytes else none

/-- `UsageRecord`, but for its times; `requestMetrics` says whether it looks at the
count of the request body. -/
structure UsageRecord where
  requestId : Str
  principal : Str
  organization : Str
  method : String
  path : String
  modelId : Option Str
  responseHeadStatus : Nat
  requestMetrics : Bool
  responseBytes : Nat
deriving DecidableEq, Repr

/-- The line of `write_usage_record`. -/
structure UsageLine where
  record : UsageRecord
  requestBytes : Option Nat
  streamOutcome : String
deriving DecidableEq, Repr

/-- What was charged and written for a request. -/
structure Books where
  charges : Nat
  audits : List AuditLine
  usages : List UsageLine
deriving DecidableEq, Repr

/-- `write_usage_record` -/
def Books.writeUsage (books : Books) (metrics : RequestBodyMetrics) (record : UsageRecord)
    (outcome : String) : Books :=
  { books with usages := books.usages ++
      [⟨record, if record.requestMetrics then metrics.completedBytes else none, outcome⟩] }

-- ---------------------------------------------------------------------------
-- Handlers
-- ---------------------------------------------------------------------------

/-- `ConnectionTermination` -/
inductive ConnectionTermination
  | CONNECTION_ACTIVE
  | CONNECTION_TIMED_OUT
deriving DecidableEq, Repr

/-- `incomplete_outcome`, of a connection that may have no marker. -/
def incompleteOutcome : Option ConnectionTermination → String
  | some .CONNECTION_TIMED_OUT => "gateway_timeout"
  | _ => "incomplete"

/-- The response on its way to the client: the permit in its `PermitBody`, and the
record its `UsageTracker` still owes. -/
structure ResponseBody where
  permit : Bool
  tracker : Option UsageRecord
deriving DecidableEq, Repr

/-- Where a handler is: at an `await`, or gone with its response body alive or not. -/
inductive Phase
  | authenticating
  | acquiring (identity : Option AuthenticatedContext)
  | selecting (identity : Option AuthenticatedContext)
  | charging (identity : AuthenticatedContext) (route : RoutedRequest)
  | forwarding (identity : Option AuthenticatedContext) (modelId : Option Str)
  | responding (body : ResponseBody)
  | gone
deriving DecidableEq, Repr

/-- One request. `metrics` counts what is read of its body while it is forwarded. -/
structure Handler where
  requestId : Str
  request : Request
  detailModelId : Option Str
  connectionTermination : Option ConnectionTermination
  metrics : RequestBodyMetrics
  phase : Phase
  books : Books
deriving DecidableEq, Repr

/-- The admission permits in a response body. -/
def ResponseBody.permits (body : ResponseBody) : Nat := if body.permit then 1 else 0

/-- The admission permits a request has. -/
def Phase.permits : Phase → Nat
  | .forwarding _ _ => 1
  | .responding body => body.permits
  | _ => 0

def Handler.permits (handler : Handler) : Nat := handler.phase.permits

/-- `UsageTracker::finish` -/
def Handler.finish (handler : Handler) (body : ResponseBody) (outcome : String) : Handler :=
  match body.tracker with
  | none => { handler with phase := .responding body }
  | some record =>
    { handler with
      phase := .responding { body with tracker := none }
      books := handler.books.writeUsage handler.metrics record outcome }

/-- What a handler has to say about the response it returns. -/
structure Outcome where
  identity : Option AuthenticatedContext
  reason : Option String
  modelId : Option Str
  usage : Bool
  requestMetrics : Bool
deriving DecidableEq, Repr

/-- A response before it is accounted for: whether its body ended with its head, and
whether the body holds the permit. -/
structure Response where
  status : Nat
  ended : Bool
  permit : Bool
deriving DecidableEq, Repr

/-- A response of the gateway itself; its body is a JSON text. -/
def Response.json (status : Nat) : Response := ⟨status, false, false⟩

def Handler.auditLine (handler : Handler) (outcome : Outcome) (status : Nat) : AuditLine :=
  ⟨handler.requestId, outcome.identity.map AuthenticatedContext.principalId,
    outcome.identity.map AuthenticatedContext.organizationId, outcome.reason,
    handler.request.method, handler.request.path, outcome.modelId, status⟩

def Handler.usageRecord (handler : Handler) (outcome : Outcome) (identity : AuthenticatedContext)
    (status : Nat) : UsageRecord :=
  ⟨handler.requestId, identity.principalId, identity.organizationId, handler.request.method,
    handler.request.path, outcome.modelId, status, outcome.requestMetrics, 0⟩

/-- `write_audit_record`, when there is an audit log. -/
def Handler.writeAudit (audit : Bool) (handler : Handler) (outcome : Outcome) (status : Nat) :
    Handler :=
  if audit then
    { handler with books :=
        { handler.books with audits := handler.books.audits ++ [handler.auditLine outcome status] } }
  else handler

/-- `audited`: the way every handler returns. -/
def audited (audit : Bool) (handler : Handler) (outcome : Outcome) (response : Response) : Handler :=
  let handler := handler.writeAudit audit outcome response.status
  match outcome.identity with
  | none => { handler with phase := .responding ⟨response.permit, none⟩ }
  | some identity =>
    if outcome.usage then
      let body : ResponseBody :=
        ⟨response.permit, some (handler.usageRecord outcome identity response.status)⟩
      -- `UsageBody::new`
      if response.ended then handler.finish body "completed"
      else { handler with phase := .responding body }
    else { handler with phase := .responding ⟨response.permit, none⟩ }

-- ---------------------------------------------------------------------------
-- From one await to the next
-- ---------------------------------------------------------------------------

section Steps

variable {discover : Discovery} (state : GatewayState discover)

/-- From `try_acquire_owned` on; `available` is what is left in the semaphore. -/
def admission (available : Nat) (handler : Handler) (identity : Option AuthenticatedContext)
    (route : RoutedRequest) : Nat × Handler :=
  match available with
  | 0 =>
    (0, audited state.audit handler
      ⟨identity, some "gateway_overloaded", route.modelId, state.auth.usage, false⟩ (.json 503))
  | left + 1 =>
    match route with
    | .Local _ modelId =>
      -- the permit goes back before the response does
      (left + 1, audited state.audit handler ⟨identity, none, modelId, state.auth.usage, false⟩
        (.json 200))
    | .Forward upstream modelId =>
      if state.requestUri upstream handler.request then
        (left, { handler with phase := .forwarding identity modelId })
      else
        (left + 1, audited state.audit handler
          ⟨identity, some "upstream_uri_invalid", modelId, state.auth.usage, false⟩ (.json 500))

/-- From a route on: quota, for an organization that has one. -/
def afterRoute (available : Nat) (handler : Handler) (identity : Option AuthenticatedContext)
    (route : RoutedRequest) : Nat × Handler :=
  match identity, state.auth.quota with
  | some context, some _ => (available, { handler with phase := .charging context route })
  | _, _ => admission state available handler identity route

/-- A refusal of routing. -/
def refuseRoute (handler : Handler) (identity : Option AuthenticatedContext)
    (refusal : RoutingRefusal) : Handler :=
  audited state.audit handler ⟨identity, some refusal.auditReason, none, false, false⟩
    (.json refusal.response.status)

/-- From `resolve_route` on; what is forwarded replaces the request. -/
def afterSelection (available : Nat) (handler : Handler) (identity : Option AuthenticatedContext)
    (late : Bool) : Nat × Handler :=
  match resolveRoute state.parser state.routing handler.request handler.detailModelId late with
  | .error refusal => (available, refuseRoute state handler identity refusal)
  | .ok (route, request) => afterRoute state available { handler with request } identity route

/-- From a known identity on. -/
def afterAuthentication (available : Nat) (handler : Handler)
    (identity : Option AuthenticatedContext) : Nat × Handler :=
  match state.routing with
  | .Catalog _ limits =>
    if isCatalogGenerationRoute handler.request then
      match modelSelectionHeadRefusal handler.request.headers limits with
      | some refusal => (available, refuseRoute state handler identity refusal)
      | none => (available, { handler with phase := .acquiring identity })
    else afterSelection state available handler identity false
  | .Passthrough _ => afterSelection state available handler identity false

def refuseAuthentication (handler : Handler) (refusal : AuthRefusal) : Handler :=
  audited state.audit handler ⟨none, some refusal.auditReason, none, false, false⟩
    (.json refusal.status)

/-- From the first poll on. -/
def receive (available : Nat) (handler : Handler) : Nat × Handler :=
  match state.auth with
  | .Disabled => afterAuthentication state available handler none
  | .RequireToken _ _ =>
    match bearerToken handler.request.headers with
    | none => (available, refuseAuthentication state handler .MissingToken)
    | some _ => (available, { handler with phase := .authenticating })

-- ---------------------------------------------------------------------------
-- Events
-- ---------------------------------------------------------------------------

/-- What comes of polling the upstream's response body. -/
inductive BodyFrame
  /-- a frame, with the payload bytes in it, and whether it was the last -/
  | frame (bytes : Nat) (last : Bool)
  | failed
  | finished
deriving DecidableEq, Repr

/-- What happens to a handler. -/
inductive Event
  | authenticated (identity : AuthenticatedContext)
  | unauthenticated (refusal : AuthRefusal)
  /-- the task that looks the token up panics, and the handler with it -/
  | authenticationPanicked
  | acquired
  | organizationSelectionOverloaded
  | gatewaySelectionOverloaded
  | bodyRead (late : Bool)
  | quotaAdmitted
  | quotaExceeded (retryAfter : Nat)
  /-- the answer of the shared store is an error, which does not say whether the
  statement had been executed -/
  | quotaUnavailable (charged : Bool)
  | answered (status : Nat) (ended : Bool)
  | upstreamFailed
  /-- the client of the upstream reads a piece of the request body -/
  | sent (bytes : Nat) (last : Bool)
  | polled (frame : BodyFrame)
  /-- the deadline of the connection passes -/
  | timedOut
  /-- the server drops the handler, or the response body; a statement on its way to
  the shared store may still be executed -/
  | dropped (charged : Bool)
deriving DecidableEq, Repr

/-- One more admission of the organization. -/
def Handler.charge (handler : Handler) (charged : Bool) : Handler :=
  if charged then
    { handler with books := { handler.books with charges := handler.books.charges + 1 } }
  else handler

/-- The answer of the quota. -/
def afterQuota (available : Nat) (handler : Handler) (identity : AuthenticatedContext)
    (route : RoutedRequest) : Event → Option (Nat × Handler)
  | .quotaAdmitted => some (admission state available (handler.charge true) (some identity) route)
  | .quotaExceeded _ =>
    some (available, audited state.audit handler
      ⟨some identity, some "organization_quota_exceeded", route.modelId, false, false⟩ (.json 429))
  | .quotaUnavailable charged =>
    -- a counter of this process is always there
    if state.auth.quota = some .Platform then
      some (available, audited state.audit (handler.charge charged)
        ⟨some identity, some "quota_store_unavailable", route.modelId, false, false⟩ (.json 503))
    else none
  | .dropped charged =>
    if state.auth.quota = some .Platform then
      some (available, { handler.charge charged with phase := .gone })
    else none
  | _ => none

/-- The answer of the upstream, which the permit waits for. -/
def afterUpstream (available : Nat) (handler : Handler) (identity : Option AuthenticatedContext)
    (modelId : Option Str) : Event → Option (Nat × Handler)
  | .answered status ended =>
    -- `PermitBody::new`
    some (if ended then available + 1 else available,
      audited state.audit handler ⟨identity, none, modelId, state.auth.usage, state.auth.usage⟩
        ⟨status, ended, !ended⟩)
  | .upstreamFailed =>
    some (available + 1, audited state.audit handler
      ⟨identity, some "upstream_unavailable", modelId, state.auth.usage, state.auth.usage⟩
      (.json 502))
  | .dropped false => some (available + 1, { handler with phase := .gone })
  | _ => none

/-- `PermitBody::poll_frame`: whether the permit goes back. -/
def releases : BodyFrame → Bool
  | .frame _ last => last
  | .failed => true
  | .finished => true

/-- `UsageBody::poll_frame` -/
def Handler.poll (handler : Handler) (body : ResponseBody) : BodyFrame → Handler
  | .frame bytes last =>
    let body := { body with tracker := body.tracker.map fun record =>
        { record with responseBytes := min (record.responseBytes + bytes) (2 ^ 64 - 1) } }
    if last then handler.finish body "completed"
    else { handler with phase := .responding body }
  | .failed => handler.finish body "body_error"
  | .finished => handler.finish body "completed"

/-- A response body is polled or dropped. -/
def afterResponse (available : Nat) (handler : Handler) (body : ResponseBody) :
    Event → Option (Nat × Handler)
  | .polled frame =>
    if releases frame then
      some (available + body.permits, handler.poll { body with permit := false } frame)
    else some (available, handler.poll body frame)
  | .dropped false =>
    some (available + body.permits,
      { handler.finish body (incompleteOutcome handler.connectionTermination) with phase := .gone })
  | _ => none

/-- What does not touch the handler's own course: the body of the request is read
while it is forwarded, and the connection may run out of time. -/
def background (handler : Handler) : Event → Option Handler
  | .sent bytes last =>
    some { handler with metrics :=
        ⟨(handler.metrics.bytes + bytes) % 2 ^ 64, handler.metrics.completed || last⟩ }
  | .timedOut =>
    some { handler with connectionTermination :=
        handler.connectionTermination.map fun _ => .CONNECTION_TIMED_OUT }
  | _ => none

/-- The handler at its await. -/
def course (available : Nat) (handler : Handler) (event : Event) : Option (Nat × Handler) :=
  match handler.phase, event with
  | .authenticating, .authenticated identity =>
    some (afterAuthentication state available handler (some identity))
  | .authenticating, .unauthenticated refusal =>
    some (available, refuseAuthentication state handler refusal)
  | .authenticating, .authenticationPanicked => some (available, { handler with phase := .gone })
  | .authenticating, .dropped false => some (available, { handler with phase := .gone })
  | .acquiring identity, .acquired =>
    some (available, { handler with phase := .selecting identity })
  | .acquiring identity, .organizationSelectionOverloaded =>
    some (available, refuseRoute state handler identity
      ⟨"organization_model_selection_overloaded",
        overloaded "gateway organization model selection limit reached"⟩)
  | .acquiring identity, .gatewaySelectionOverloaded =>
    some (available, refuseRoute state handler identity
      ⟨"gateway_model_selection_overloaded", overloaded "gateway model selection limit reached"⟩)
  | .acquiring _, .dropped false => some (available, { handler with phase := .gone })
  | .selecting identity, .bodyRead late =>
    some (afterSelection state available handler identity late)
  | .selecting _, .dropped false => some (available, { handler with phase := .gone })
  | .charging identity route, event => afterQuota state available handler identity route event
  | .forwarding identity modelId, event =>
    afterUpstream state available handler identity modelId event
  | .responding body, event => afterResponse available handler body event
  | _, _ => none

/-- One event. -/
def Handler.step (available : Nat) (handler : Handler) (event : Event) : Option (Nat × Handler) :=
  match background handler event with
  | some handler => some (available, handler)
  | none => course state available handler event

end Steps

-- ---------------------------------------------------------------------------
-- The gateway
-- ---------------------------------------------------------------------------

/-- All requests of a gateway, and the permits left in its semaphore. -/
structure InFlight where
  available : Nat
  handlers : List Handler
deriving DecidableEq, Repr

/-- A request as it comes in. -/
structure Arrival where
  requestId : Str
  request : Request
  detailModelId : Option Str
  connectionTermination : Option ConnectionTermination

def Arrival.handler (arrival : Arrival) : Handler :=
  ⟨arrival.requestId, arrival.request, arrival.detailModelId, arrival.connectionTermination,
    ⟨0, false⟩, .authenticating, ⟨0, [], []⟩⟩

inductive Action
  | arrive (arrival : Arrival)
  | event (handler : Nat) (event : Event)

/-- One action; none when what is to happen cannot happen. -/
def InFlight.step {discover : Discovery} (state : GatewayState discover) (s : InFlight) :
    Action → Option InFlight
  | .arrive arrival =>
    let (available, handler) := receive state s.available arrival.handler
    some ⟨available, s.handlers ++ [handler]⟩
  | .event i event => do
    let handler ← s.handlers[i]?
    let (available, handler) ← handler.step state s.available event
    some ⟨available, s.handlers.set i handler⟩

/-- The gateway as a machine: any request may come in at any time, and anything may
happen next to any of them. -/
def gateway {discover : Discovery} (state : GatewayState discover) (maxInFlight : Nat) :
    Machine InFlight Action Unit where
  start s := s = ⟨maxInFlight, []⟩
  step s action _ s' := s.step state action = some s'

end CamelidEnterprise.Gateway

import CamelidEnterprise.Gateway.ProxyRun
import CamelidEnterprise.Identity.StoreRun

/-!
# Camelid Enterprise — for whom a request is done

`authenticate` of `crates/gateway/src/lib.rs`, with the store it asks. Any process may call the
store, in any order, while requests of the gateway are under way; the lookup of a token is a step
of its own, somewhere between the arrival of the request and all that is done for it.

* `deployment_refines` — both are what they were on their own: the calls are a run of the store,
  and the requests a run of the gateway;
* `judged_run` — what is done for a request is done for the principal and organization that its
  own token stood for when it was looked up.
-/

namespace CamelidEnterprise.Gateway

open Foundation Foundation.Json Foundation.Http Foundation.Text
open Identity (Standing Retires mintedToken)

-- ---------------------------------------------------------------------------
-- The store and the gateway
-- ---------------------------------------------------------------------------

/-- `authenticate`, from the answer of the store on. -/
def authenticate : Foundation.Outcome Identity.IdentityError Identity.AuthenticatedContext → Event
  | .ok context => .authenticated ⟨context.principalId.id, context.organizationId.id⟩
  | .err .InvalidToken => .unauthenticated .InvalidToken
  | .err .ExpiredToken => .unauthenticated .ExpiredToken
  | .err _ => .unauthenticated .StoreUnavailable
  | .fault _ => .authenticationPanicked

/-- A gateway and the database of its identities. -/
structure Deployment where
  db : Identity.Database
  gateway : InFlight

inductive DeploymentAction
  /-- a call of the store by any process -/
  | call (call : Identity.Call)
  /-- the lookup of the token of a request -/
  | lookup (handler : Nat) (world : Identity.World)
  | gateway (action : Action)

/-- An answer of `authenticate`. -/
def Action.authenticates : Action → Bool
  | .event _ (.authenticated _) => true
  | .event _ (.unauthenticated _) => true
  | .event _ .authenticationPanicked => true
  | _ => false

abbrev StoreResult := Foundation.Outcome Identity.IdentityError Identity.Answer

section Deployment

variable {discover : Discovery}

/-- One step of either; `authenticate` answers by a lookup only. -/
inductive Deployment.Step (hashToken : Str → Str) (state : GatewayState discover) :
    Deployment → DeploymentAction → Option StoreResult → Deployment → Prop
  | call {s : Deployment} {call : Identity.Call} {result : StoreResult} {db : Identity.Database}
      (hcall : call.run hashToken s.db = (result, db)) :
      Step hashToken state s (.call call) (some result) ⟨db, s.gateway⟩
  | lookup {s : Deployment} {i : Nat} {w : Identity.World} {handler : Handler} {token : Str}
      {gateway : InFlight} (hhandler : s.gateway.handlers[i]? = some handler)
      (htoken : bearerToken handler.request.headers = some token)
      (hstep : s.gateway.step state
        (.event i (authenticate (Identity.resolve hashToken s.db token w))) = some gateway) :
      Step hashToken state s (.lookup i w) none ⟨s.db, gateway⟩
  | gateway {s : Deployment} {action : Action} {gateway : InFlight}
      (hother : action.authenticates = false)
      (hstep : s.gateway.step state action = some gateway) :
      Step hashToken state s (.gateway action) none ⟨s.db, gateway⟩

/-- A new store and a gateway that has no requests yet. -/
def deployment (hashToken : Str → Str) (state : GatewayState discover) (maxInFlight : Nat) :
    Machine Deployment DeploymentAction (Option StoreResult) where
  start s := s = ⟨.empty, ⟨maxInFlight, []⟩⟩
  step := Deployment.Step hashToken state

end Deployment

abbrev DeploymentHistory := List (Entry Deployment DeploymentAction (Option StoreResult))

/-- The call of the store that a step is. -/
def callOf (e : Entry Deployment DeploymentAction (Option StoreResult)) : Option Identity.Step :=
  match e.action, e.result with
  | .call call, some result => some ⟨e.before.db, call, result, e.after.db⟩
  | _, _ => none

/-- The request that comes in by a step. -/
def arrivalOf (e : Entry Deployment DeploymentAction (Option StoreResult)) : Option Arrival :=
  match e.action with
  | .gateway (.arrive arrival) => some arrival
  | _ => none

/-- What a step does to the gateway. -/
def requestOf (hashToken : Str → Str) (e : Entry Deployment DeploymentAction (Option StoreResult)) :
    Option (Entry InFlight Action Unit) :=
  match e.action with
  | .call _ => none
  | .gateway action => some ⟨e.before.gateway, action, (), e.after.gateway⟩
  | .lookup i w =>
    (e.before.gateway.handlers[i]?.bind fun handler => bearerToken handler.request.headers).map
      fun token => ⟨e.before.gateway,
        .event i (authenticate (Identity.resolve hashToken e.before.db token w)), (),
        e.after.gateway⟩

/-- The calls of the store. -/
def calls (h : DeploymentHistory) : List Identity.Step := h.filterMap callOf

/-- The requests that came in. -/
def arrivals (h : DeploymentHistory) : List Arrival := h.filterMap arrivalOf

/-- What happened to the gateway. -/
def requests (hashToken : Str → Str) (h : DeploymentHistory) : List (Entry InFlight Action Unit) :=
  h.filterMap (requestOf hashToken)

theorem filterMap_snoc {α β : Type} (f : α → Option β) (l : List α) (a : α) :
    (l ++ [a]).filterMap f = l.filterMap f ++ (f a).toList := by
  rw [List.filterMap_append, List.filterMap_cons]
  cases f a with
  | none => rfl
  | some b => rfl

theorem arrivals_snoc (h : DeploymentHistory)
    (e : Entry Deployment DeploymentAction (Option StoreResult)) :
    arrivals (h ++ [e]) = arrivals h ++ (arrivalOf e).toList := filterMap_snoc ..

section Runs

variable {discover : Discovery} {state : GatewayState discover} {hashToken : Str → Str}
  {maxInFlight : Nat} {h : DeploymentHistory} {s : Deployment}

/-- Store and gateway are what they are on their own. -/
theorem deployment_refines (run : (deployment hashToken state maxInFlight).Run h s) :
    (Identity.store hashToken).Run (calls h) s.db ∧
      (gateway state maxInFlight).Run (requests hashToken h) s.gateway := by
  refine run.history_induction (P := fun h s => (Identity.store hashToken).Run (calls h) s.db ∧
    (gateway state maxInFlight).Run (requests hashToken h) s.gateway) ?_ ?_
  · rintro s rfl
    exact ⟨.nil rfl, .nil rfl⟩
  · intro h s action result s' _ ⟨hstore, hgateway⟩ hstep
    unfold calls requests at *
    rw [filterMap_snoc, filterMap_snoc]
    cases hstep with
    | call hcall => exact ⟨hstore.snoc hcall, (List.append_nil _).symm ▸ hgateway⟩
    | @lookup i w handler token gateway hhandler htoken hgateway' =>
      have hrequest : requestOf hashToken ⟨s, .lookup i w, none, ⟨s.db, gateway⟩⟩ =
          some ⟨s.gateway, .event i (authenticate (Identity.resolve hashToken s.db token w)), (),
            gateway⟩ := by
        unfold requestOf
        dsimp only
        rw [hhandler, Option.bind_some, htoken]
        rfl
      rw [hrequest]
      exact ⟨(List.append_nil _).symm ▸ hstore, hgateway.snoc hgateway'⟩
    | gateway hother hgateway' =>
      exact ⟨(List.append_nil _).symm ▸ hstore, hgateway.snoc hgateway'⟩

end Runs

-- ---------------------------------------------------------------------------
-- What a handler does for whom
-- ---------------------------------------------------------------------------

/-- A phase of a request that is done for `who`. -/
def Phase.ActsFor (who : AuthenticatedContext) : Phase → Prop
  | .authenticating => False
  | .acquiring identity => identity = some who
  | .selecting identity => identity = some who
  | .charging identity _ => identity = who
  | .forwarding identity _ => identity = some who
  | .responding body => ∀ record, body.tracker = some record →
      record.principal = who.principalId ∧ record.organization = who.organizationId
  | .gone => True

/-- Every line of the books is in the name of `who`. -/
structure Books.ActFor (who : AuthenticatedContext) (books : Books) : Prop where
  audits : ∀ line ∈ books.audits,
    line.principal = some who.principalId ∧ line.organization = some who.organizationId
  usages : ∀ line ∈ books.usages,
    line.record.principal = who.principalId ∧ line.record.organization = who.organizationId

/-- Whatever is done for the request, and whatever is written of it, is for `who`. -/
structure Handler.ActsFor (handler : Handler) (who : AuthenticatedContext) : Prop where
  phase : handler.phase.ActsFor who
  books : handler.books.ActFor who

/-- Nothing was done for the request. -/
structure Handler.Unheard (handler : Handler) : Prop where
  phase : handler.phase = .authenticating ∨ handler.phase = .gone
  books : handler.books = ⟨0, [], []⟩

/-- The request was refused at once: it took nothing, and what is written of it is the refusal. -/
structure Handler.Refused (audit : Bool) (handler : Handler) (refusal : AuthRefusal) : Prop where
  phase : handler.phase = .responding ⟨false, none⟩ ∨ handler.phase = .gone
  books : handler.books = ⟨0, if audit then
    [handler.auditLine ⟨none, some refusal.auditReason, none, false, false⟩ refusal.status]
    else [], []⟩

section Steps

variable {discover : Discovery} {state : GatewayState discover} {who : AuthenticatedContext}

theorem audited_actsFor {audit : Bool} {handler : Handler} (h : handler.books.ActFor who)
    (reason : Option String) (modelId : Option Str) (usage requestMetrics : Bool)
    (response : Response) :
    (audited audit handler ⟨some who, reason, modelId, usage, requestMetrics⟩ response).ActsFor
      who := by
  have hwritten : (handler.writeAudit audit ⟨some who, reason, modelId, usage, requestMetrics⟩
      response.status).books.ActFor who := by
    unfold Handler.writeAudit
    split
    · refine ⟨fun line hline => ?_, h.usages⟩
      rcases List.mem_append.mp hline with hline | hline
      · exact h.audits line hline
      · rw [List.mem_singleton.mp hline]
        exact ⟨rfl, rfl⟩
    · exact h
  cases usage with
  | false =>
    rw [audited_plain rfl]
    exact ⟨fun record hrecord => absurd hrecord (by simp), hwritten⟩
  | true =>
    rw [audited_metered rfl rfl]
    split
    · refine ⟨fun record hrecord => absurd hrecord (by simp), hwritten.audits, fun line hline => ?_⟩
      rcases List.mem_append.mp hline with hline | hline
      · exact hwritten.usages line hline
      · rw [List.mem_singleton.mp hline]
        exact ⟨rfl, rfl⟩
    · refine ⟨fun record hrecord => ?_, hwritten⟩
      rw [← Option.some.inj hrecord]
      exact ⟨rfl, rfl⟩

theorem finish_actsFor {handler : Handler} {body : ResponseBody} (h : handler.books.ActFor who)
    (hbody : (Phase.responding body).ActsFor who) (outcome : String) :
    (handler.finish body outcome).ActsFor who := by
  unfold Handler.finish
  split
  · rename_i hnone
    refine ⟨fun record hrecord => ?_, h⟩
    rw [hnone] at hrecord
    cases hrecord
  · rename_i record hrecord
    refine ⟨fun record hrecord => absurd hrecord (by simp), h.audits, fun line hline => ?_⟩
    rcases List.mem_append.mp hline with hline | hline
    · exact h.usages line hline
    · rw [List.mem_singleton.mp hline]
      exact hbody record hrecord

theorem admission_actsFor (available : Nat) {handler : Handler} (h : handler.books.ActFor who)
    (route : RoutedRequest) :
    (admission state available handler (some who) route).2.ActsFor who := by
  rcases admission_cases state available handler (some who) route with
    ⟨reason, modelId, status, hnext⟩ | ⟨left, upstream, modelId, -, -, hnext⟩
  · rw [hnext]
    exact audited_actsFor h ..
  · rw [hnext]
    exact ⟨rfl, h⟩

theorem refuseRoute_actsFor {handler : Handler} (h : handler.books.ActFor who)
    (refusal : RoutingRefusal) : (refuseRoute state handler (some who) refusal).ActsFor who :=
  audited_actsFor h ..

theorem afterSelection_actsFor (available : Nat) {handler : Handler} (h : handler.books.ActFor who)
    (late : Bool) : (afterSelection state available handler (some who) late).2.ActsFor who := by
  rcases afterSelection_cases state available handler (some who) late with
    ⟨refusal, -, hnext⟩ | ⟨route, request, -, hnext⟩
  · rw [hnext]
    exact refuseRoute_actsFor h refusal
  rw [hnext]
  rcases afterRoute_cases state available { handler with request } (some who) route with
    ⟨context, quota, hcontext, -, hnext⟩ | ⟨-, hnext⟩
  · rw [hnext, ← Option.some.inj hcontext]
    exact ⟨rfl, h⟩
  · rw [hnext]
    exact @admission_actsFor _ state _ available { handler with request } h route

theorem afterAuthentication_actsFor (available : Nat) {handler : Handler}
    (h : handler.books.ActFor who) :
    (afterAuthentication state available handler (some who)).2.ActsFor who := by
  rcases afterAuthentication_cases state available handler (some who) with
    ⟨refusal, hnext⟩ | ⟨-, hnext⟩ | ⟨-, hnext⟩
  · rw [hnext]
    exact refuseRoute_actsFor h refusal
  · rw [hnext]
    exact ⟨rfl, h⟩
  · rw [hnext]
    exact afterSelection_actsFor available h false

theorem charge_actsFor {handler : Handler} (h : handler.books.ActFor who) (charged : Bool) :
    (handler.charge charged).books.ActFor who := by
  cases charged with
  | true => exact ⟨h.audits, h.usages⟩
  | false => exact h

theorem poll_actsFor {handler : Handler} {body : ResponseBody} (h : handler.books.ActFor who)
    (hbody : (Phase.responding body).ActsFor who) (frame : BodyFrame) :
    (handler.poll body frame).ActsFor who := by
  cases frame with
  | frame bytes last =>
    have hcounted : (Phase.responding { body with tracker := body.tracker.map fun record =>
        { record with responseBytes := min (record.responseBytes + bytes) (2 ^ 64 - 1) } }).ActsFor
        who := by
      intro record hrecord
      obtain ⟨owed, howed, rfl⟩ := Option.map_eq_some_iff.mp hrecord
      exact hbody owed howed
    unfold Handler.poll
    cases last with
    | true => exact finish_actsFor h hcounted _
    | false => exact ⟨hcounted, h⟩
  | failed => exact finish_actsFor h hbody _
  | finished => exact finish_actsFor h hbody _

theorem afterResponse_actsFor {available : Nat} {handler : Handler} {body : ResponseBody}
    {event : Event} {next : Nat × Handler} (h : handler.books.ActFor who)
    (hbody : (Phase.responding body).ActsFor who)
    (hstep : afterResponse available handler body event = some next) : next.2.ActsFor who := by
  unfold afterResponse at hstep
  split at hstep
  · split at hstep
    · rw [← Option.some.inj hstep]
      exact @poll_actsFor _ _ { body with permit := false } h hbody _
    · rw [← Option.some.inj hstep]
      exact poll_actsFor h hbody _
  · rw [← Option.some.inj hstep]
    exact ⟨trivial, (finish_actsFor h hbody _).books⟩
  · cases hstep

/-- What happens to a request in the background is nothing to its course. -/
theorem background_frame {handler handler' : Handler} {event : Event}
    (h : background handler event = some handler') :
    handler'.phase = handler.phase ∧ handler'.books = handler.books ∧
      handler'.request = handler.request ∧ handler'.requestId = handler.requestId := by
  unfold background at h
  split at h
  · rw [← Option.some.inj h]
    exact ⟨rfl, rfl, rfl, rfl⟩
  · rw [← Option.some.inj h]
    exact ⟨rfl, rfl, rfl, rfl⟩
  · cases h

/-- A request that is done for someone is done for them to its end. -/
theorem step_actsFor {available : Nat} {handler : Handler} {event : Event} {next : Nat × Handler}
    (h : handler.ActsFor who) (hstep : handler.step state available event = some next) :
    next.2.ActsFor who := by
  obtain ⟨hphase, hbooks⟩ := h
  unfold Handler.step at hstep
  split at hstep
  · rename_i handler' hbackground
    rw [← Option.some.inj hstep]
    obtain ⟨hphase', hbooks', -⟩ := background_frame hbackground
    exact ⟨by rw [hphase']; exact hphase, by rw [hbooks']; exact hbooks⟩
  unfold course at hstep
  split at hstep
  all_goals try (rename_i hat _; rw [hat] at hphase)
  -- before `authenticate` has answered nobody acts; from then on each phase carries who it was
  · exact hphase.elim
  · exact hphase.elim
  · exact hphase.elim
  · exact hphase.elim
  · obtain rfl := hphase
    rw [← Option.some.inj hstep]
    exact ⟨rfl, hbooks⟩
  · obtain rfl := hphase
    rw [← Option.some.inj hstep]
    exact refuseRoute_actsFor hbooks _
  · obtain rfl := hphase
    rw [← Option.some.inj hstep]
    exact refuseRoute_actsFor hbooks _
  · rw [← Option.some.inj hstep]
    exact ⟨trivial, hbooks⟩
  · obtain rfl := hphase
    rw [← Option.some.inj hstep]
    exact afterSelection_actsFor available hbooks _
  · rw [← Option.some.inj hstep]
    exact ⟨trivial, hbooks⟩
  · obtain rfl := hphase
    -- the charge is the caller's, whatever the store says to it
    unfold afterQuota at hstep
    split at hstep
    · rw [← Option.some.inj hstep]
      exact admission_actsFor available (charge_actsFor hbooks true) _
    · rw [← Option.some.inj hstep]
      dsimp only
      exact audited_actsFor hbooks ..
    · split at hstep
      · rw [← Option.some.inj hstep]
        dsimp only
        exact audited_actsFor (charge_actsFor hbooks _) ..
      · cases hstep
    · split at hstep
      · rw [← Option.some.inj hstep]
        exact ⟨trivial, charge_actsFor hbooks _⟩
      · cases hstep
    · cases hstep
  · obtain rfl := hphase
    unfold afterUpstream at hstep
    split at hstep
    · rw [← Option.some.inj hstep]
      exact audited_actsFor hbooks ..
    · rw [← Option.some.inj hstep]
      exact audited_actsFor hbooks ..
    · rw [← Option.some.inj hstep]
      exact ⟨trivial, hbooks⟩
    · cases hstep
  · exact afterResponse_actsFor hbooks hphase hstep
  · cases hstep

theorem refuseAuthentication_refused {handler : Handler} (hbooks : handler.books = ⟨0, [], []⟩)
    (refusal : AuthRefusal) :
    (refuseAuthentication state handler refusal).Refused state.audit refusal := by
  unfold refuseAuthentication
  rw [audited_plain rfl]
  unfold Handler.writeAudit
  refine ⟨.inl rfl, ?_⟩
  cases state.audit with
  | true =>
    rw [if_pos rfl, if_pos rfl]
    show Books.mk handler.books.charges (handler.books.audits ++ [_]) handler.books.usages = _
    rw [hbooks]
    rfl
  | false =>
    rw [if_neg Bool.false_ne_true, if_neg Bool.false_ne_true]
    exact hbooks

/-- A body that owes nothing and holds nothing stays so. -/
theorem poll_settled (handler : Handler) (frame : BodyFrame) :
    handler.poll ⟨false, none⟩ frame = { handler with phase := .responding ⟨false, none⟩ } := by
  cases frame with
  | frame bytes last =>
    cases last with
    | true => rfl
    | false => rfl
  | failed => rfl
  | finished => rfl

/-- Nothing more is done for a request that was refused. -/
theorem step_refused {available : Nat} {handler : Handler} {event : Event} {next : Nat × Handler}
    {refusal : AuthRefusal} (h : handler.Refused state.audit refusal)
    (hstep : handler.step state available event = some next) :
    next.2.Refused state.audit refusal := by
  obtain ⟨hphase, hbooks⟩ := h
  unfold Handler.step at hstep
  split at hstep
  · rename_i handler' hbackground
    rw [← Option.some.inj hstep]
    obtain ⟨hphase', hbooks', hrequest, hid⟩ := background_frame hbackground
    refine ⟨by rw [hphase']; exact hphase, ?_⟩
    unfold Handler.auditLine
    rw [hbooks', hbooks, hrequest, hid]
    rfl
  unfold course at hstep
  rcases hphase with hphase | hphase
  · rw [hphase] at hstep
    dsimp only at hstep
    unfold afterResponse at hstep
    split at hstep
    · rw [poll_settled] at hstep
      split at hstep
      · rw [← Option.some.inj hstep]
        exact ⟨.inl rfl, hbooks⟩
      · rw [← Option.some.inj hstep]
        exact ⟨.inl rfl, hbooks⟩
    · rw [← Option.some.inj hstep]
      exact ⟨.inr rfl, hbooks⟩
    · cases hstep
  · rw [hphase] at hstep
    cases hstep

/-- A request whose token nobody looked up yet. -/
theorem step_unheard {available : Nat} {handler : Handler} {event : Event} {next : Nat × Handler}
    (h : handler.Unheard) (hstep : handler.step state available event = some next) :
    next.2.Unheard ∧ next.2.request = handler.request ∧
        (next.2.phase = .authenticating → handler.phase = .authenticating) ∨
      handler.phase = .authenticating ∧
      ((∃ who, event = .authenticated who ∧ next.2.ActsFor who) ∨
        ∃ refusal, event = .unauthenticated refusal ∧ next.2.Refused state.audit refusal) := by
  obtain ⟨hphase, hbooks⟩ := h
  have hnobody : ∀ who, handler.books.ActFor who := by
    intro who
    rw [hbooks]
    exact ⟨fun line hline => absurd hline List.not_mem_nil,
      fun line hline => absurd hline List.not_mem_nil⟩
  unfold Handler.step at hstep
  split at hstep
  · rename_i handler' hbackground
    rw [← Option.some.inj hstep]
    obtain ⟨hphase', hbooks', hrequest, -⟩ := background_frame hbackground
    exact .inl ⟨⟨by rw [hphase']; exact hphase, hbooks'.trans hbooks⟩, hrequest,
      fun h => hphase'.symm.trans h⟩
  unfold course at hstep
  rcases hphase with hphase | hphase
  · rw [hphase] at hstep
    split at hstep
    all_goals try (rename_i hat _; cases hat)
    · rw [← Option.some.inj hstep]
      exact .inr ⟨hphase, .inl ⟨_, rfl, afterAuthentication_actsFor available (hnobody _)⟩⟩
    · rw [← Option.some.inj hstep]
      exact .inr ⟨hphase, .inr ⟨_, rfl, refuseAuthentication_refused hbooks _⟩⟩
    · rw [← Option.some.inj hstep]
      exact .inl ⟨⟨.inr rfl, hbooks⟩, rfl, fun h => by cases h⟩
    · rw [← Option.some.inj hstep]
      exact .inl ⟨⟨.inr rfl, hbooks⟩, rfl, fun h => by cases h⟩
    · cases hstep
  · rw [hphase] at hstep
    cases hstep

/-- A request comes in: it waits for its token to be looked up, or has none and is refused. -/
theorem receive_heard (hauth : state.auth ≠ .Disabled) (available : Nat) {handler : Handler}
    (hphase : handler.phase = .authenticating) (hbooks : handler.books = ⟨0, [], []⟩) :
    handler.Unheard ∧ (receive state available handler).2 = handler ∨
      bearerToken handler.request.headers = none ∧
        (receive state available handler).2.Refused state.audit .MissingToken := by
  unfold receive
  cases hmode : state.auth with
  | Disabled => exact absurd hmode hauth
  | RequireToken quota usage =>
    cases htoken : bearerToken handler.request.headers with
    | none => exact .inr ⟨rfl, refuseAuthentication_refused hbooks _⟩
    | some token =>
      have hsame : { handler with phase := .authenticating } = handler := by
        rw [← hphase]
      exact .inl ⟨⟨.inl hphase, hbooks⟩, hsame⟩

end Steps

-- ---------------------------------------------------------------------------
-- Verdicts
-- ---------------------------------------------------------------------------

/-- What the lookup of a token comes to behind some calls of the store. -/
inductive Verdict (h : List Identity.Step) (token : Str) (w : Identity.World) : Event → Prop
  | live {c : Identity.Credential} (hstanding : Standing h token c)
      (hlive : Identity.expired c.expiresAtUnix (w.clock 0) = false) (hreads : w.failure 0 = none) :
      Verdict h token w (.authenticated ⟨c.principalId.id, c.organizationId.id⟩)
  | expired {c : Identity.Credential} (hstanding : Standing h token c)
      (hexpired : Identity.expired c.expiresAtUnix (w.clock 0) = true)
      (hreads : w.failure 0 = none) : Verdict h token w (.unauthenticated .ExpiredToken)
  | unknown (hnone : ∀ c, ¬Standing h token c) (hreads : w.failure 0 = none) :
      Verdict h token w (.unauthenticated .InvalidToken)
  | unread (hfails : w.failure 0 ≠ none) : Verdict h token w (.unauthenticated .StoreUnavailable)

/-- `resolve_context`, with what may come of each of its steps. -/
theorem resolve_eq (hashToken : Str → Str) (db : Identity.Database) (token : Str)
    (w : Identity.World) : Identity.resolve hashToken db token w =
      match w.failure 0 with
      | some message => .err (.Storage message)
      | none =>
        match db.credential hashToken token with
        | none => .err .InvalidToken
        | some c =>
          if Identity.expired c.expiresAtUnix (w.clock 0) then .err .ExpiredToken
          else .ok ⟨c.principalId, c.organizationId⟩ := by
  have hquery : Identity.query (·.credential hashToken token) w (.start db) =
      match w.failure 0 with
      | some message => (.err (.Storage message), .start db)
      | none => (.ok (db.credential hashToken token), (Identity.Session.start db).after db) := rfl
  have hpure : ∀ {α : Type} (a : α) (s : Identity.Session),
      (pure a : Identity.Tx α) w s = (.ok a, s) := fun _ _ => rfl
  have hfirst : ((Identity.Session.start db).after db).readings = 0 := rfl
  unfold Identity.resolve Identity.resolveContext Identity.lookupCredential
  simp only [Txn.bind_run, hquery]
  cases w.failure 0 with
  | some message => rfl
  | none =>
    dsimp only
    cases db.credential hashToken token with
    | none => rfl
    | some c =>
      simp only [Txn.okOr, hpure, Identity.unixNow, Identity.Credential.stillValid, hfirst]
      cases Identity.expired c.expiresAtUnix (w.clock 0) with
      | true => rfl
      | false => rfl

/-- The answer of the store is the verdict of the calls it took. -/
theorem verdict_of_run {hashToken : Str → Str} (hinjective : Function.Injective hashToken)
    {h : List Identity.Step} {db : Identity.Database}
    (run : (Identity.store hashToken).Run h db) (token : Str) (w : Identity.World) :
    Verdict h token w (authenticate (Identity.resolve hashToken db token w)) := by
  have hrows : ∀ c, db.credential hashToken token = some c ↔ Standing h token c := fun c =>
    Identity.credential_eq_some.trans ((Identity.run_agrees hinjective run).rows token c)
  rw [resolve_eq]
  cases hfails : w.failure 0 with
  | some message => exact .unread (by simp [hfails])
  | none =>
    cases hfound : db.credential hashToken token with
    | none => exact .unknown (fun c hc => by simp [(hrows c).mpr hc] at hfound) hfails
    | some c =>
      have hstanding := (hrows c).mp hfound
      dsimp only
      cases hexpired : Identity.expired c.expiresAtUnix (w.clock 0) with
      | true => exact .expired hstanding hexpired hfails
      | false => exact .live hstanding hexpired hfails

/-- The request gets what was found. -/
def Handler.Bears (audit : Bool) (handler : Handler) : Event → Prop
  | .authenticated who => handler.ActsFor who
  | .unauthenticated refusal => handler.Refused audit refusal
  | _ => False

/-- What became of a request: nothing so far, or it came without a token, or its token was looked
up behind its arrival. -/
inductive Judgement (audit : Bool) (h : DeploymentHistory) (i : Nat) (arrival : Arrival)
    (handler : Handler) : Prop
  | unheard (hunheard : handler.Unheard)
  | missing (hnone : bearerToken arrival.request.headers = none)
      (hrefused : handler.Refused audit .MissingToken)
  | judged {front back : DeploymentHistory}
      {e : Entry Deployment DeploymentAction (Option StoreResult)} {w : Identity.World}
      {token : Str} {event : Event} (hcut : h = front ++ e :: back)
      (harrived : i < (arrivals front).length) (haction : e.action = .lookup i w)
      (htoken : bearerToken arrival.request.headers = some token)
      (hverdict : Verdict (calls front) token w event) (hbears : handler.Bears audit event)

/-- A request that waits for its token to be looked up is the one that came in. -/
structure Attended (audit : Bool) (h : DeploymentHistory) (i : Nat) (arrival : Arrival)
    (handler : Handler) : Prop where
  asks : handler.phase = .authenticating → handler.request = arrival.request
  judgement : Judgement audit h i arrival handler

section Judged

variable {discover : Discovery} {state : GatewayState discover} {hashToken : Str → Str}
  {maxInFlight : Nat} {h : DeploymentHistory} {s : Deployment}
  {e : Entry Deployment DeploymentAction (Option StoreResult)}

theorem Judgement.later {audit : Bool} {i : Nat} {arrival : Arrival} {handler : Handler}
    (hjudged : Judgement audit h i arrival handler) :
    Judgement audit (h ++ [e]) i arrival handler := by
  cases hjudged with
  | unheard hunheard => exact .unheard hunheard
  | missing hnone hrefused => exact .missing hnone hrefused
  | judged hcut harrived haction htoken hverdict hbears =>
    exact .judged (by rw [hcut, List.append_assoc, List.cons_append]) harrived haction htoken
      hverdict hbears

theorem Handler.Refused.not_asking {audit : Bool} {handler : Handler} {refusal : AuthRefusal}
    (hrefused : handler.Refused audit refusal) : handler.phase ≠ .authenticating := by
  intro hphase
  rcases hrefused.phase with hother | hother
  · rw [hphase] at hother
    cases hother
  · rw [hphase] at hother
    cases hother

theorem Handler.ActsFor.not_asking {handler : Handler} {who : AuthenticatedContext}
    (hacts : handler.ActsFor who) : handler.phase ≠ .authenticating := by
  intro hphase
  have hnever := hacts.phase
  rw [hphase] at hnever
  exact hnever

/-- One event of a request; an answer about its token is the verdict of a lookup. -/
theorem attended_step {i : Nat} {arrival : Arrival} {handler : Handler} {available : Nat}
    {event : Event} {next : Nat × Handler} (hattended : Attended state.audit h i arrival handler)
    (hstep : handler.step state available event = some next)
    (hanswer : (∀ who, event ≠ .authenticated who) ∧ (∀ refusal, event ≠ .unauthenticated refusal) ∨
      ∃ w token, i < (arrivals h).length ∧ e.action = .lookup i w ∧
        bearerToken handler.request.headers = some token ∧ Verdict (calls h) token w event) :
    Attended state.audit (h ++ [e]) i arrival next.2 := by
  obtain ⟨hasks, hjudged⟩ := hattended
  cases hjudged with
  | unheard hunheard =>
    rcases step_unheard hunheard hstep with ⟨hstill, hrequest, hasked⟩ | ⟨hphase, hheard⟩
    · exact ⟨fun hphase => hrequest.trans (hasks (hasked hphase)), .unheard hstill⟩
    · have hbears : next.2.Bears state.audit event ∧ next.2.phase ≠ .authenticating := by
        rcases hheard with ⟨who, rfl, hacts⟩ | ⟨refusal, rfl, hrefused⟩
        · exact ⟨hacts, hacts.not_asking⟩
        · exact ⟨hrefused, hrefused.not_asking⟩
      rcases hanswer with ⟨hnot, hnot'⟩ | ⟨w, token, harrived, haction, htoken, hverdict⟩
      · rcases hheard with ⟨who, hevent, -⟩ | ⟨refusal, hevent, -⟩
        · exact absurd hevent (hnot who)
        · exact absurd hevent (hnot' refusal)
      · rw [hasks hphase] at htoken
        exact ⟨fun h => absurd h hbears.2, .judged rfl harrived haction htoken hverdict hbears.1⟩
  | missing hnone hrefused =>
    have hafter := step_refused hrefused hstep
    exact ⟨fun hphase => absurd hphase hafter.not_asking, .missing hnone hafter⟩
  | @judged front back earlier w token verdict hcut harrived haction htoken hverdict hbears =>
    have hafter : next.2.Bears state.audit verdict ∧ next.2.phase ≠ .authenticating := by
      cases hverdict with
      | live =>
        have hacts := step_actsFor hbears hstep
        exact ⟨hacts, hacts.not_asking⟩
      | _ =>
        have hrefused := step_refused hbears hstep
        exact ⟨hrefused, hrefused.not_asking⟩
    have hcut' : h ++ [e] = front ++ earlier :: (back ++ [e]) := by
      rw [hcut, List.append_assoc, List.cons_append]
    exact ⟨fun hphase => absurd hphase hafter.2,
      .judged hcut' harrived haction htoken hverdict hafter.1⟩

/-- Everything but the handler that an event is for is as it was. -/
theorem attended_set {handlers : List Handler} {i : Nat} {next : Handler}
    (hold : ∀ j arrival handler, (arrivals h)[j]? = some arrival → handlers[j]? = some handler →
      Attended state.audit h j arrival handler)
    (hnew : ∀ arrival, (arrivals h)[i]? = some arrival →
      Attended state.audit (h ++ [e]) i arrival next)
    {j : Nat} {arrival : Arrival} {handler : Handler} (harrival : (arrivals h)[j]? = some arrival)
    (hhandler : (handlers.set i next)[j]? = some handler) :
    Attended state.audit (h ++ [e]) j arrival handler := by
  rw [List.getElem?_set] at hhandler
  split at hhandler
  · rename_i hij
    subst hij
    split at hhandler
    · rw [← Option.some.inj hhandler]
      exact hnew arrival harrival
    · cases hhandler
  · obtain ⟨hasks, hjudged⟩ := hold j arrival handler harrival hhandler
    exact ⟨hasks, hjudged.later⟩

theorem run_attended (hinjective : Function.Injective hashToken) (hauth : state.auth ≠ .Disabled)
    (run : (deployment hashToken state maxInFlight).Run h s) :
    s.gateway.handlers.length = (arrivals h).length ∧
      ∀ i arrival handler, (arrivals h)[i]? = some arrival →
        s.gateway.handlers[i]? = some handler → Attended state.audit h i arrival handler := by
  refine run.history_induction (P := fun h s =>
    s.gateway.handlers.length = (arrivals h).length ∧
      ∀ i arrival handler, (arrivals h)[i]? = some arrival →
        s.gateway.handlers[i]? = some handler → Attended state.audit h i arrival handler) ?_ ?_
  · rintro s rfl
    exact ⟨rfl, fun i arrival handler harrival => by cases harrival⟩
  intro h s action result s' run ⟨hlength, hattended⟩ hstep
  -- an event of one of the requests
  have hevent : ∀ {i : Nat} {event : Event} {gateway : InFlight},
      s.gateway.step state (.event i event) = some gateway →
      (∀ handler, s.gateway.handlers[i]? = some handler →
        (∀ who, event ≠ .authenticated who) ∧ (∀ refusal, event ≠ .unauthenticated refusal) ∨
        ∃ w token, i < (arrivals h).length ∧ action = .lookup i w ∧
          bearerToken handler.request.headers = some token ∧ Verdict (calls h) token w event) →
      gateway.handlers.length = (arrivals h).length ∧
        ∀ j arrival handler, (arrivals h)[j]? = some arrival → gateway.handlers[j]? = some handler →
          Attended state.audit (h ++ [⟨s, action, result, s'⟩]) j arrival handler := by
    intro i event gateway hgateway hanswer
    obtain ⟨handler, hhandler, hgateway⟩ := Option.bind_eq_some_iff.mp hgateway
    obtain ⟨next, hnext, hgateway⟩ := Option.bind_eq_some_iff.mp hgateway
    obtain rfl := Option.some.inj hgateway
    refine ⟨by rw [List.length_set, hlength], fun j arrival other harrival hother =>
      attended_set hattended (fun arrival' harrival' => ?_) harrival hother⟩
    exact attended_step (hattended i arrival' handler harrival' hhandler) hnext
      (hanswer handler hhandler)
  cases hstep with
  | call hcall =>
    rw [arrivals_snoc, show Option.toList _ = [] from rfl, List.append_nil]
    refine ⟨hlength, fun i arrival handler harrival hhandler => ?_⟩
    obtain ⟨hasks, hjudged⟩ := hattended i arrival handler harrival hhandler
    exact ⟨hasks, hjudged.later⟩
  | @lookup i w handler token gateway hhandler htoken hgateway =>
    rw [arrivals_snoc, show Option.toList _ = [] from rfl, List.append_nil]
    refine hevent hgateway fun other hother => .inr ⟨w, token, ?_, rfl, ?_, ?_⟩
    · rw [← hlength]
      exact (List.getElem?_eq_some_iff.mp hhandler).1
    · obtain rfl := Option.some.inj (hhandler.symm.trans hother)
      exact htoken
    · exact verdict_of_run hinjective (deployment_refines run).1 token w
  | @gateway action gateway hother hgateway =>
    cases action with
    | arrive arrival =>
      rw [arrivals_snoc, show Option.toList _ = [arrival] from rfl]
      have hhandlers : gateway.handlers =
          s.gateway.handlers ++ [(receive state s.gateway.available arrival.handler).2] := by
        rw [← Option.some.inj hgateway]
        rfl
      refine ⟨by rw [hhandlers, List.length_append, List.length_append, hlength]; rfl,
        fun j arrival' handler harrival hhandler => ?_⟩
      dsimp only at hhandler
      rw [hhandlers] at hhandler
      rcases Nat.lt_or_ge j (arrivals h).length with hlt | hge
      · rw [List.getElem?_append_left hlt] at harrival
        rw [List.getElem?_append_left (by omega)] at hhandler
        obtain ⟨hasks, hjudged⟩ := hattended j arrival' handler harrival hhandler
        exact ⟨hasks, hjudged.later⟩
      · rw [List.getElem?_append_right hge, List.getElem?_singleton] at harrival
        rw [List.getElem?_append_right (by omega), List.getElem?_singleton, hlength] at hhandler
        split at harrival
        · rename_i hj
          rw [if_pos hj] at hhandler
          obtain rfl := Option.some.inj harrival
          obtain rfl := Option.some.inj hhandler
          have hfresh : arrival.handler.phase = .authenticating := rfl
          rcases receive_heard hauth s.gateway.available hfresh rfl with
            ⟨hunheard, hsame⟩ | ⟨hnone, hrefused⟩
          · rw [hsame]
            exact ⟨fun _ => rfl, .unheard hunheard⟩
          · exact ⟨fun hphase => absurd hphase hrefused.not_asking, .missing hnone hrefused⟩
        · cases harrival
    | event i event =>
      rw [arrivals_snoc, show Option.toList _ = [] from rfl, List.append_nil]
      refine hevent hgateway fun _ _ => .inl ⟨?_, ?_⟩
      · rintro who rfl
        cases hother
      · rintro refusal rfl
        cases hother

/-- A call that retires a token does not mint it. -/
theorem not_minted_of_retires {call : Identity.Step} {token : Str} (hretires : Retires call token)
    (hstep : (Identity.store hashToken).step call.before call.action call.result call.after) :
    mintedToken call ≠ some token := by
  intro hminted
  cases hretires with
  | rotated lifetime replacement hcall hresult =>
    unfold mintedToken at hminted
    rw [hresult] at hminted hstep
    obtain rfl : replacement = token := Option.some.inj hminted
    have heffect := Identity.effect_of_run hstep
    rw [hcall] at heffect
    cases heffect with
    | rotateToken hrow hlive hinserted hdb =>
      rw [hinserted.2.1] at hrow
      cases hrow
  | revoked hcall hresult =>
    unfold mintedToken at hminted
    rw [hresult] at hminted
    cases hminted

/-- **For whom a request is done.** Whatever the processes that share the store do, and in
whatever order: a request is either not heard yet, or refused for want of a token, or its own
token was looked up behind its arrival, and it is refused or done, to its end, for exactly who the
token then stood for. A request that comes in when its token was revoked or rotated away is done
for no one. -/
theorem judged_run (hinjective : Function.Injective hashToken) (hauth : state.auth ≠ .Disabled)
    (run : (deployment hashToken state maxInFlight).Run h s) :
    s.gateway.handlers.length = (arrivals h).length ∧
    (∀ i arrival handler, (arrivals h)[i]? = some arrival → s.gateway.handlers[i]? = some handler →
      Judgement state.audit h i arrival handler) ∧
    ∀ front e back token, h = front ++ e :: back → (∃ call ∈ calls [e], Retires call token) →
      token ∉ (calls back).filterMap mintedToken →
      ∀ i arrival handler, (arrivals front).length ≤ i → (arrivals h)[i]? = some arrival →
        s.gateway.handlers[i]? = some handler → bearerToken arrival.request.headers = some token →
        handler.Unheard ∨ handler.Refused state.audit .InvalidToken ∨
          handler.Refused state.audit .StoreUnavailable := by
  obtain ⟨hlength, hattended⟩ := run_attended hinjective hauth run
  refine ⟨hlength, fun i arrival handler harrival hhandler =>
    (hattended i arrival handler harrival hhandler).judgement, ?_⟩
  rintro front e back token hcut ⟨call, hcall, hretires⟩ hnew i arrival handler hlate harrival
    hhandler htoken
  cases (hattended i arrival handler harrival hhandler).judgement with
  | unheard hunheard => exact .inl hunheard
  | missing hnone hrefused =>
    rw [htoken] at hnone
    cases hnone
  | @judged front' back' e' w token' event hcut' harrived haction htoken' hverdict hbears =>
    obtain rfl := Option.some.inj (htoken.symm.trans htoken')
    -- the lookup is behind the call
    obtain ⟨between, rest, rfl, rfl⟩ : ∃ between rest, front' = front ++ e :: between ∧
        back = between ++ rest := by
      rcases List.append_eq_append_iff.mp (hcut.symm.trans hcut') with
        ⟨m, rfl, hback⟩ | ⟨m, rfl, -⟩
      · rcases m with _ | ⟨first, between⟩
        · rw [List.append_nil] at harrived
          omega
        · obtain ⟨rfl, rfl⟩ := List.cons.inj hback
          exact ⟨between, e' :: back', rfl, rfl⟩
      · unfold arrivals at harrived hlate
        rw [List.filterMap_append, List.length_append] at hlate
        omega
    have hnever : ∀ c, ¬Standing (calls (front ++ e :: between)) token c := by
      intro c hstanding
      have hone : callOf e = some call := by
        unfold calls at hcall
        obtain ⟨e', he', hcallOf⟩ := List.mem_filterMap.mp hcall
        rw [← List.mem_singleton.mp he']
        exact hcallOf
      have hstep : (Identity.store hashToken).step call.before call.action call.result call.after :=
        (deployment_refines run).1.step_of_mem
          (List.mem_filterMap.mpr ⟨e, by rw [hcut]; simp, hone⟩)
      unfold calls at hstanding
      rw [List.filterMap_append, List.filterMap_cons_some hone] at hstanding
      have hsince := Identity.minted_since hstanding hretires
      rw [List.filterMap_cons] at hsince
      have hlater : token ∈ (calls between).filterMap mintedToken := by
        cases hminted : mintedToken call with
        | none =>
          rw [hminted] at hsince
          exact hsince
        | some other =>
          rw [hminted] at hsince
          refine (List.mem_cons.mp hsince).resolve_left fun hsame => ?_
          exact not_minted_of_retires hretires hstep (hsame ▸ hminted)
      refine hnew ?_
      unfold calls at hlater ⊢
      rw [List.filterMap_append, List.filterMap_append]
      exact List.mem_append_left _ hlater
    cases hverdict with
    | live hstanding => exact absurd hstanding (hnever _)
    | expired hstanding => exact absurd hstanding (hnever _)
    | unknown => exact .inr (.inl hbears)
    | unread => exact .inr (.inr hbears)

end Judged

-- ---------------------------------------------------------------------------
-- A revoked token
-- ---------------------------------------------------------------------------

def sampleUser : Identity.Call := ⟨.createUser "ada".toList, Identity.sampleWorld 100 0⟩

def sampleIssue : Identity.Call :=
  ⟨.issueToken Identity.samplePrincipal .Never, Identity.sampleWorld 100 1⟩

def sampleRevoke : Identity.Call :=
  ⟨.revokeToken (Identity.sampleToken 1), Identity.sampleWorld 200 0⟩

/-- The store before the token is revoked. -/
def sampleIssued : Identity.Database :=
  (sampleIssue.run Identity.sampleHash (sampleUser.run Identity.sampleHash .empty).2).2

/-- The store behind the revocation. -/
def sampleRevoked : Identity.Database := (sampleRevoke.run Identity.sampleHash sampleIssued).2

/-- `GET /v1/health` with the token that was revoked. -/
def revokedArrival : Arrival :=
  { sampleArrival with
    request := ⟨"GET", "/v1/health", [("authorization",
      ("Bearer ".toList ++ Identity.sampleToken 1).map fun c => c.toNat.toUInt8)], .whole []⟩ }

/-- A token is issued and revoked, and then a request comes with it: no quota is charged for it and
no usage recorded. -/
theorem judged_run_revoked : ∃ h s handler,
    (deployment Identity.sampleHash sampleState 1).Run h s ∧ s.gateway.handlers[0]? = some handler ∧
    handler.phase = .responding ⟨false, none⟩ ∧ handler.books.charges = 0 ∧
    handler.books.usages = [] := by
  have huser : sampleUser.run Identity.sampleHash .empty =
      ((sampleUser.run Identity.sampleHash .empty).1, _) := (Prod.eta _).symm
  have hissue : sampleIssue.run Identity.sampleHash (sampleUser.run Identity.sampleHash .empty).2 =
      (_, sampleIssued) := (Prod.eta _).symm
  have hrevoke : sampleRevoke.run Identity.sampleHash sampleIssued = (.ok .done, sampleRevoked) :=
    Prod.ext (by decide +kernel) rfl
  have hadmit : (⟨1, []⟩ : InFlight).step sampleState (.arrive revokedArrival) =
      some ⟨1, [revokedArrival.handler]⟩ := by decide +kernel
  have htoken : bearerToken revokedArrival.request.headers = some (Identity.sampleToken 1) := by
    decide +kernel
  have hresolve : Identity.resolve Identity.sampleHash sampleRevoked (Identity.sampleToken 1)
      (Identity.sampleWorld 300 0) = .err .InvalidToken := by decide +kernel
  have hrefuse : (⟨1, [revokedArrival.handler]⟩ : InFlight).step sampleState
      (.event 0 (authenticate (Identity.resolve Identity.sampleHash sampleRevoked
        (Identity.sampleToken 1) (Identity.sampleWorld 300 0)))) =
      some ⟨1, [refuseAuthentication sampleState revokedArrival.handler .InvalidToken]⟩ := by
    rw [hresolve]
    rfl
  -- two calls, the revocation, the request, and the lookup of its token
  have run₁ :=
    (Machine.Run.nil (M := deployment Identity.sampleHash sampleState 1) rfl).snoc (.call huser)
  have run₃ := (run₁.snoc (.call hissue)).snoc (.call hrevoke)
  have run := (run₃.snoc (.gateway rfl hadmit)).snoc (.lookup rfl htoken hrefuse)
  refine ⟨_, _, _, run, rfl, rfl, ?_⟩
  obtain ⟨-, -, hgone⟩ := judged_run Identity.sampleHash_injective (by decide) run
  rcases hgone [_, _] _ [_, _] (Identity.sampleToken 1) rfl
    ⟨_, List.mem_singleton_self _, .revoked rfl rfl⟩ List.not_mem_nil 0 revokedArrival _
    (Nat.le_refl 0) rfl rfl htoken with hunheard | hrefused | hrefused
  · rcases hunheard.phase with hphase | hphase
    · cases hphase
    · cases hphase
  · rw [hrefused.books]
    exact ⟨rfl, rfl⟩
  · rw [hrefused.books]
    exact ⟨rfl, rfl⟩

end CamelidEnterprise.Gateway

import CamelidEnterprise.Gateway.ProxyRun
import CamelidEnterprise.Server.Handlers

/-!
# Camelid Enterprise — gateway and replica agree on the model

The gateway reads the model out of a body it forwards untouched, with a reader that
skips everything else; the replica reads the same bytes twice more, once as a value
and once as a request. `gateway_replica_agree`: what the gateway routes by is the only
member of the name, and a replica that answers is the model it names; what does not
name one model is refused before it costs anything.
-/

namespace CamelidEnterprise.Gateway

open Foundation Foundation.Json Foundation.Http Foundation.Text Surface

-- ---------------------------------------------------------------------------
-- The three readers
-- ---------------------------------------------------------------------------

/-- The body is an object, and its one `model` is the string. -/
def OnlyModel (parser : Parser) (body : List UInt8) (modelId : Text) : Prop :=
  ∃ before raw after, parser.entries body = some (before ++ (modelKey, raw) :: after) ∧
    parser.document raw = some (.string modelId) ∧ ∀ entry ∈ before ++ after, entry.1 ≠ modelKey

theorem nextOptionString_eq {parser : Parser} {raw : List UInt8} {modelId : Text}
    (h : nextOptionString parser raw = some (some modelId)) :
    parser.document raw = some (.string modelId) := by
  unfold nextOptionString at h
  split at h
  · exact absurd h (by simp)
  · rename_i hdocument
    rw [hdocument, ← Option.some.inj (Option.some.inj h)]
  · exact absurd h (by simp)

/-- After its `model` the visitor accepts no other. -/
theorem visitMap_found {parser : Parser} {found : Option Text} {entries : List (Text × List UInt8)}
    {model : Option Text} (h : visitMap parser (some found) entries = some model) :
    model = found ∧ ∀ entry ∈ entries, entry.1 ≠ modelKey := by
  induction entries with
  | nil => exact ⟨(Option.some.inj h).symm, by simp⟩
  | cons first rest ih =>
    obtain ⟨key, raw⟩ := first
    unfold visitMap at h
    split at h
    · rename_i hkey
      obtain ⟨hmodel, hrest⟩ := ih h
      exact ⟨hmodel, List.forall_mem_cons.mpr ⟨hkey, hrest⟩⟩
    · exact absurd h (by simp)

/-- What the visitor reads is the string of the one `model`. -/
theorem visitMap_none {parser : Parser} {entries : List (Text × List UInt8)} {modelId : Text}
    (h : visitMap parser none entries = some (some modelId)) :
    ∃ before raw after, entries = before ++ (modelKey, raw) :: after ∧
      parser.document raw = some (.string modelId) ∧
      ∀ entry ∈ before ++ after, entry.1 ≠ modelKey := by
  induction entries with
  | nil => exact absurd h (by simp [visitMap])
  | cons first rest ih =>
    obtain ⟨key, raw⟩ := first
    unfold visitMap at h
    split at h
    · rename_i hkey
      obtain ⟨before, raw', after, rfl, hdocument, hothers⟩ := ih h
      exact ⟨(key, raw) :: before, raw', after, rfl, hdocument,
        List.forall_mem_cons.mpr ⟨hkey, hothers⟩⟩
    · rename_i hkey
      obtain rfl : key = modelKey := not_not.mp hkey
      split at h
      · exact absurd h (by simp)
      · split at h
        · exact absurd h (by simp)
        · rename_i value hvalue
          obtain ⟨rfl, hothers⟩ := visitMap_found h
          exact ⟨[], raw, rest, rfl, nextOptionString_eq hvalue, hothers⟩

theorem readModelSelection_onlyModel {parser : Parser} {body : List UInt8} {modelId : Text}
    (h : readModelSelection parser body = some (some modelId)) : OnlyModel parser body modelId := by
  obtain ⟨entries, hentries, hvisit⟩ := Option.bind_eq_some_iff.mp h
  obtain ⟨before, raw, after, rfl, hdocument, hothers⟩ := visitMap_none hvisit
  exact ⟨before, raw, after, hentries, hdocument, hothers⟩

/-- The two readings of an object meet the same members. -/
theorem lastNamed_of_entries {parser : Parser} {modelId : Text} {raw : List UInt8}
    {before after : List (Text × List UInt8)} {members : List (Text × Document)}
    (hdocument : parser.document raw = some (.string modelId))
    (hothers : ∀ entry ∈ before ++ after, entry.1 ≠ modelKey)
    (hsame : List.Forall₂ (fun raw member => raw.1 = member.1 ∧ parser.document raw.2 = some member.2)
      (before ++ (modelKey, raw) :: after) members) :
    lastNamed modelKey members = some (.string modelId) := by
  induction before generalizing members with
  | nil =>
    cases hsame with
    | @cons _ member _ rest hfirst hrest =>
      obtain ⟨key, member⟩ := member
      obtain ⟨rfl, hmember⟩ : modelKey = key ∧ parser.document raw = some member := hfirst
      have hnone : lastNamed modelKey rest = none := by
        rw [lastNamed_eq_none]
        intro other hother
        obtain ⟨entry, hentry, hname, -⟩ := forall₂_mem_right hrest hother
        rw [← hname]
        exact hothers entry hentry
      rw [lastNamed_cons, hnone, if_pos rfl, Option.none_or]
      exact hmember.symm.trans hdocument
  | cons first before ih =>
    cases hsame with
    | @cons _ member _ rest hfirst hrest =>
      obtain ⟨key, member⟩ := member
      obtain ⟨hname, -⟩ : first.1 = key ∧ parser.document first.2 = some member := hfirst
      have hkey : key ≠ modelKey := hname ▸ hothers first (by simp)
      rw [lastNamed_cons, ih (fun entry hentry => hothers entry (List.mem_cons_of_mem _ hentry)) hrest]
      rfl

/-- A replica that answers such a body is the model it names. -/
theorem replica_answers {parser : Parser} {replica : Server.Replica} {sent : Request}
    {answer : Server.Answer} {modelId : Text} (hpost : sent.method = "POST")
    (hpath : isGenerationPath sent.path = true) (honly : OnlyModel parser sent.body.bytes modelId)
    (h : replica.answer parser sent = .ok answer) :
    replica.served.namesThisModel modelId = true ∧ answer.modelId = replica.served.id := by
  refine ⟨?_, Server.Replica.answer_modelId h⟩
  unfold Server.Replica.answer at h
  cases hfiltered : pinGenerationToTheServedModel parser replica.served sent with
  | refused refusal =>
    rw [hfiltered] at h
    exact absurd h (by simp)
  | forwarded sent' =>
    obtain ⟨bytes, members, hbytes, hdoc, hneeded⟩ := forwarded_cases hpost hpath hfiltered
    have hbody : sent.body.bytes = bytes := by
      rw [(toBytes_eq_ok.mp hbytes).2]
      rfl
    obtain ⟨before, raw, after, hentries, hdocument, hothers⟩ := honly
    obtain ⟨raws, hraws, hsame⟩ := parser.entries_object hdoc
    rw [hbody, hraws] at hentries
    obtain rfl := Option.some.inj hentries
    have hlast := lastNamed_of_entries hdocument hothers hsame
    rcases hneeded with ⟨hneeded, -⟩ | ⟨rewritten, hneeded, -⟩
    · exact namesThisModel_of_rewriteNeeded hlast hneeded
    · exact namesThisModel_of_rewriteNeeded hlast hneeded

-- ---------------------------------------------------------------------------
-- Routing
-- ---------------------------------------------------------------------------

/-- A route read out of a body: the model is its only one, and the body goes on as it
came. -/
theorem selectCatalogUpstream_ok {discover : Discovery} {parser : Parser}
    {catalog : VerifiedModelCatalog discover} {limits : ModelSelectionLimits} {req req' : Request}
    {late : Bool} {route : RoutedRequest}
    (h : selectCatalogUpstream parser catalog limits req late = .ok (route, req')) :
    req' = req ∧ ∃ upstream modelId, route = .Forward upstream (some modelId) ∧ modelId ≠ [] ∧
      (modelId, upstream) ∈ catalog.catalog.routes ∧ OnlyModel parser req.body.bytes modelId := by
  unfold selectCatalogUpstream at h
  split at h
  · exact absurd h (by simp)
  split at h
  · exact absurd h (by simp)
  split at h
  · exact absurd h (by simp)
  · exact absurd h (by simp)
  rename_i body hbody
  split at h
  · exact absurd h (by simp)
  rename_i model hmodel
  split at h
  · exact absurd h (by simp)
  rename_i modelId hnamed
  split at h
  · exact absurd h (by simp)
  rename_i upstream hroute
  obtain ⟨rfl, hreq'⟩ := Prod.mk.inj (Except.ok.inj h)
  obtain ⟨hmodelId, hnonempty⟩ := Option.filter_eq_some_iff.mp hnamed
  have hwhole : req.body = .whole body := (toBytes_eq_ok.mp hbody).2
  refine ⟨?_, upstream, modelId, rfl, by simpa using hnonempty, Map.mem_of_get hroute, ?_⟩
  · rw [← hreq', ← hwhole]
  · rw [hwhole]
    rw [hmodelId] at hmodel
    exact readModelSelection_onlyModel hmodel

/-- No route changes the request. -/
theorem resolveRoute_request {discover : Discovery} {parser : Parser}
    {routing : UpstreamRouting discover} {req req' : Request} {detail : Option Str} {late : Bool}
    {route : RoutedRequest} (h : resolveRoute parser routing req detail late = .ok (route, req')) :
    req' = req := by
  unfold resolveRoute at h
  split at h
  · exact (Prod.mk.inj (Except.ok.inj h)).2.symm
  split at h
  · exact (Prod.mk.inj (Except.ok.inj h)).2.symm
  split at h
  · split at h
    · exact (Prod.mk.inj (Except.ok.inj h)).2.symm
    · exact absurd h (by simp)
  split at h
  · exact (selectCatalogUpstream_ok h).1
  · exact absurd h (by simp)

/-- A generation request is routed by its body. -/
theorem resolveRoute_generation {discover : Discovery} {parser : Parser}
    {catalog : VerifiedModelCatalog discover} {limits : ModelSelectionLimits} {req : Request}
    (hgeneration : isCatalogGenerationRoute req = true) (detail : Option Str) (late : Bool) :
    resolveRoute parser (.Catalog catalog limits) req detail late =
      selectCatalogUpstream parser catalog limits req late := by
  have hpost : req.method = "POST" := by
    unfold isCatalogGenerationRoute at hgeneration
    simpa using (Bool.and_eq_true_iff.mp hgeneration).1
  unfold resolveRoute
  simp [hpost, hgeneration]

-- ---------------------------------------------------------------------------
-- What names no model costs nothing
-- ---------------------------------------------------------------------------

variable {discover : Discovery} {state : GatewayState discover}

/-- A generation request whose body does not name one model. -/
def Unroutable (state : GatewayState discover) (req : Request) : Prop :=
  state.routing.selects req = true ∧
    ¬∃ modelId, modelId ≠ [] ∧ OnlyModel state.parser req.body.bytes modelId

/-- It has cost nothing yet, and will be read or has been refused. -/
def Handler.Free (handler : Handler) : Prop :=
  handler.books.charges = 0 ∧
    match handler.phase with
    | .charging _ _ => False
    | .forwarding _ _ => False
    | .responding body => body.permit = false
    | _ => True

theorem Handler.Free.permits {handler : Handler} (h : handler.Free) : handler.permits = 0 := by
  obtain ⟨-, hphase⟩ := h
  unfold Handler.permits Phase.permits
  split
  · rename_i hat
    rw [hat] at hphase
    exact hphase.elim
  · rename_i hat
    rw [hat] at hphase
    unfold ResponseBody.permits
    rw [hphase]
    rfl
  · rfl

/-- Neither the request nor what was charged for it is touched by a return. -/
theorem finish_unchanged (handler : Handler) (body : ResponseBody) (outcome : String) :
    (handler.finish body outcome).request = handler.request ∧
      (handler.finish body outcome).books.charges = handler.books.charges := by
  obtain ⟨permit, tracker⟩ := body
  cases tracker with
  | none => exact ⟨rfl, rfl⟩
  | some record => exact ⟨rfl, rfl⟩

theorem writeAudit_unchanged (audit : Bool) (handler : Handler) (outcome : Outcome) (status : Nat) :
    (handler.writeAudit audit outcome status).request = handler.request ∧
      (handler.writeAudit audit outcome status).books.charges = handler.books.charges := by
  cases audit with
  | true => exact ⟨rfl, rfl⟩
  | false => exact ⟨rfl, rfl⟩

theorem audited_unchanged (audit : Bool) (handler : Handler) (outcome : Outcome)
    (response : Response) :
    (audited audit handler outcome response).request = handler.request ∧
      (audited audit handler outcome response).books.charges = handler.books.charges := by
  have hwritten := writeAudit_unchanged audit handler outcome response.status
  unfold audited
  dsimp only
  split
  · exact hwritten
  split
  · split
    · have hfinished := finish_unchanged (handler.writeAudit audit outcome response.status)
      exact ⟨(hfinished _ _).1.trans hwritten.1, (hfinished _ _).2.trans hwritten.2⟩
    · exact hwritten
  · exact hwritten

/-- A step keeps the request, and does not begin to charge for one that names no model. -/
structure Onward (state : GatewayState discover) (handler next : Handler) : Prop where
  request : next.request = handler.request
  free : Unroutable state handler.request → handler.Free → next.Free

theorem audited_onward (audit : Bool) (handler : Handler) (outcome : Outcome) (status : Nat) :
    Onward state handler (audited audit handler outcome (.json status)) := by
  obtain ⟨hrequest, hcharges⟩ := audited_unchanged audit handler outcome (.json status)
  refine ⟨hrequest, fun _ hfree => ⟨hcharges.trans hfree.1, ?_⟩⟩
  obtain ⟨tracker, hphase⟩ := audited_responding audit handler outcome (.json status)
  rw [hphase]
  rfl

theorem refuseAuthentication_onward (handler : Handler) (refusal : AuthRefusal) :
    Onward state handler (refuseAuthentication state handler refusal) :=
  audited_onward _ _ _ _

/-- A request past its route is not one of them. -/
theorem onward_of_not_free {handler next : Handler} (hrequest : next.request = handler.request)
    (hbusy : ¬handler.Free) : Onward state handler next :=
  ⟨hrequest, fun _ hfree => absurd hfree hbusy⟩

theorem admission_request (available : Nat) (handler : Handler)
    (identity : Option AuthenticatedContext) (route : RoutedRequest) :
    (admission state available handler identity route).2.request = handler.request := by
  rcases admission_cases state available handler identity route with
    ⟨reason, modelId, status, h⟩ | ⟨left, upstream, modelId, -, -, h⟩
  · rw [h]
    exact (audited_unchanged _ _ _ _).1
  · rw [h]

theorem afterRoute_request (available : Nat) (handler : Handler)
    (identity : Option AuthenticatedContext) (route : RoutedRequest) :
    (afterRoute state available handler identity route).2.request = handler.request := by
  rcases afterRoute_cases state available handler identity route with
    ⟨context, _, -, -, h⟩ | ⟨-, h⟩
  · rw [h]
  · rw [h]
    exact admission_request _ _ _ _

/-- The body does not name a model, so there is no route. -/
theorem unroutable_refused {req : Request} (hunroutable : Unroutable state req)
    (detail : Option Str) (late : Bool) :
    ∃ refusal, resolveRoute state.parser state.routing req detail late = .error refusal := by
  obtain ⟨hselects, hnone⟩ := hunroutable
  cases hroute : resolveRoute state.parser state.routing req detail late with
  | error refusal => exact ⟨refusal, rfl⟩
  | ok routed =>
    refine absurd ?_ hnone
    unfold UpstreamRouting.selects at hselects
    split at hselects
    · rename_i catalog limits hrouting
      obtain ⟨route, req'⟩ := routed
      rw [hrouting, resolveRoute_generation hselects] at hroute
      obtain ⟨-, upstream, modelId, -, hnonempty, -, honly⟩ := selectCatalogUpstream_ok hroute
      exact ⟨modelId, hnonempty, honly⟩
    · exact absurd hselects (by simp)

theorem afterSelection_onward (available : Nat) (handler : Handler)
    (identity : Option AuthenticatedContext) (late : Bool) :
    Onward state handler (afterSelection state available handler identity late).2 := by
  rcases afterSelection_cases state available handler identity late with
    ⟨refusal, -, h⟩ | ⟨route, request, hroute, h⟩
  · rw [h]
    exact audited_onward _ _ _ _
  · rw [h]
    refine ⟨(afterRoute_request _ _ _ _).trans (resolveRoute_request hroute), fun hunroutable _ => ?_⟩
    obtain ⟨refusal, hrefused⟩ := unroutable_refused hunroutable handler.detailModelId late
    rw [hrefused] at hroute
    exact absurd hroute (by simp)

theorem afterAuthentication_onward (available : Nat) (handler : Handler)
    (identity : Option AuthenticatedContext) :
    Onward state handler (afterAuthentication state available handler identity).2 := by
  rcases afterAuthentication_cases state available handler identity with
    ⟨refusal, h⟩ | ⟨-, h⟩ | ⟨-, h⟩
  · rw [h]
    exact audited_onward _ _ _ _
  · rw [h]
    exact ⟨rfl, fun _ hfree => ⟨hfree.1, trivial⟩⟩
  · rw [h]
    exact afterSelection_onward _ _ _ _

theorem receive_onward (state : GatewayState discover) (available : Nat) (handler : Handler) :
    Onward state handler (receive state available handler).2 := by
  unfold receive
  cases state.auth with
  | Disabled => exact afterAuthentication_onward _ _ _
  | RequireToken quota usage =>
    cases bearerToken handler.request.headers with
    | none => exact refuseAuthentication_onward _ _
    | some token => exact ⟨rfl, fun _ hfree => ⟨hfree.1, trivial⟩⟩

theorem gone_onward (handler : Handler) : Onward state handler { handler with phase := .gone } :=
  ⟨rfl, fun _ hfree => ⟨hfree.1, trivial⟩⟩

theorem charge_request (handler : Handler) (charged : Bool) :
    (handler.charge charged).request = handler.request := by
  cases charged with
  | true => rfl
  | false => rfl

theorem afterQuota_request {available : Nat} {handler : Handler} {identity : AuthenticatedContext}
    {route : RoutedRequest} {event : Event} {next : Nat × Handler}
    (h : afterQuota state available handler identity route event = some next) :
    next.2.request = handler.request := by
  unfold afterQuota at h
  split at h
  · rw [← Option.some.inj h]
    exact (admission_request _ _ _ _).trans (charge_request _ _)
  · rw [← Option.some.inj h]
    exact (audited_unchanged _ _ _ _).1
  · split at h
    · rw [← Option.some.inj h]
      exact (audited_unchanged _ _ _ _).1.trans (charge_request _ _)
    · exact absurd h (by simp)
  · split at h
    · rw [← Option.some.inj h]
      exact charge_request _ _
    · exact absurd h (by simp)
  · exact absurd h (by simp)

theorem afterUpstream_request {available : Nat} {handler : Handler}
    {identity : Option AuthenticatedContext} {modelId : Option Str} {event : Event}
    {next : Nat × Handler}
    (h : afterUpstream state available handler identity modelId event = some next) :
    next.2.request = handler.request := by
  unfold afterUpstream at h
  split at h
  · rw [← Option.some.inj h]
    exact (audited_unchanged _ _ _ _).1
  · rw [← Option.some.inj h]
    exact (audited_unchanged _ _ _ _).1
  · rw [← Option.some.inj h]
  · exact absurd h (by simp)

theorem finish_free {handler : Handler} {body : ResponseBody} {outcome : String}
    (hcharges : handler.books.charges = 0) (hpermit : body.permit = false) :
    (handler.finish body outcome).Free := by
  refine ⟨(finish_unchanged _ _ _).2.trans hcharges, ?_⟩
  rw [finish_phase]
  exact hpermit

theorem poll_onward {handler : Handler} {body body' : ResponseBody} {frame : BodyFrame}
    (hphase : handler.phase = .responding body) (hpermit : body.permit = false → body'.permit = false) :
    Onward state handler (handler.poll body' frame) := by
  have hbody : handler.Free → handler.books.charges = 0 ∧ body'.permit = false := by
    rintro ⟨hcharges, hfree⟩
    rw [hphase] at hfree
    exact ⟨hcharges, hpermit hfree⟩
  cases frame with
  | frame bytes last =>
    cases last with
    | true =>
      exact ⟨(finish_unchanged _ _ _).1, fun _ hfree => finish_free (hbody hfree).1 (hbody hfree).2⟩
    | false => exact ⟨rfl, fun _ hfree => hbody hfree⟩
  | failed =>
    exact ⟨(finish_unchanged _ _ _).1, fun _ hfree => finish_free (hbody hfree).1 (hbody hfree).2⟩
  | finished =>
    exact ⟨(finish_unchanged _ _ _).1, fun _ hfree => finish_free (hbody hfree).1 (hbody hfree).2⟩

theorem afterResponse_onward {available : Nat} {handler : Handler} {body : ResponseBody}
    {event : Event} {next : Nat × Handler} (hphase : handler.phase = .responding body)
    (h : afterResponse available handler body event = some next) : Onward state handler next.2 := by
  unfold afterResponse at h
  split at h
  · split at h
    · rw [← Option.some.inj h]
      exact poll_onward hphase fun _ => rfl
    · rw [← Option.some.inj h]
      exact poll_onward hphase fun hpermit => hpermit
  · rw [← Option.some.inj h]
    have hfinished := finish_unchanged handler body (incompleteOutcome handler.connectionTermination)
    exact ⟨hfinished.1, fun _ hfree => ⟨hfinished.2.trans hfree.1, trivial⟩⟩
  · exact absurd h (by simp)

theorem step_onward {available : Nat} {handler : Handler} {event : Event} {next : Nat × Handler}
    (h : handler.step state available event = some next) : Onward state handler next.2 := by
  unfold Handler.step at h
  split at h
  · rename_i handler' hbackground
    rw [← Option.some.inj h]
    unfold background at hbackground
    split at hbackground
    · rw [← Option.some.inj hbackground]
      exact ⟨rfl, fun _ hfree => hfree⟩
    · rw [← Option.some.inj hbackground]
      exact ⟨rfl, fun _ hfree => hfree⟩
    · exact absurd hbackground (by simp)
  · unfold course at h
    split at h
    · rw [← Option.some.inj h]
      exact afterAuthentication_onward _ _ _
    · rw [← Option.some.inj h]
      exact refuseAuthentication_onward _ _
    · rw [← Option.some.inj h]
      exact gone_onward _
    · rw [← Option.some.inj h]
      exact gone_onward _
    · rw [← Option.some.inj h]
      exact ⟨rfl, fun _ hfree => ⟨hfree.1, trivial⟩⟩
    · rw [← Option.some.inj h]
      exact audited_onward _ _ _ _
    · rw [← Option.some.inj h]
      exact audited_onward _ _ _ _
    · rw [← Option.some.inj h]
      exact gone_onward _
    · rw [← Option.some.inj h]
      exact afterSelection_onward _ _ _ _
    · rw [← Option.some.inj h]
      exact gone_onward _
    -- from the charge on a handler is no longer free, which excludes the next two
    · rename_i hphase _
      refine onward_of_not_free (afterQuota_request h) fun hfree => ?_
      have hcharging := hfree.2
      rw [hphase] at hcharging
      exact hcharging
    · rename_i hphase _
      refine onward_of_not_free (afterUpstream_request h) fun hfree => ?_
      have hforwarding := hfree.2
      rw [hphase] at hforwarding
      exact hforwarding
    · rename_i hphase _
      exact afterResponse_onward hphase h
    · exact absurd h (by simp)

/-- In every run a request whose body names no model has cost nothing. -/
theorem run_free {maxInFlight : Nat} {history : List (Entry InFlight Action Unit)} {s : InFlight}
    (run : (gateway state maxInFlight).Run history s) :
    ∀ (i : Nat) handler, s.handlers[i]? = some handler → Unroutable state handler.request →
      handler.Free := by
  refine run.invariant (I := fun s => ∀ (i : Nat) handler, s.handlers[i]? = some handler →
    Unroutable state handler.request → handler.Free) ?_ ?_
  · rintro s rfl i handler h
    exact absurd h (by simp)
  · intro s action _ s' hs hstep i handler hhandler hunroutable
    rcases inFlight_step_cases hstep with
      ⟨arrival, -, rfl⟩ | ⟨j, event, before, next, -, hbefore, hnext, rfl⟩
    · rcases List.mem_append.mp (List.mem_of_getElem? hhandler) with hold | hnew
      · obtain ⟨k, hk⟩ := List.mem_iff_getElem?.mp hold
        exact hs k handler hk hunroutable
      · obtain rfl := List.mem_singleton.mp hnew
        have honward := receive_onward state s.available arrival.handler
        rw [honward.request] at hunroutable
        exact honward.free hunroutable ⟨rfl, trivial⟩
    · rcases List.mem_or_eq_of_mem_set (List.mem_of_getElem? hhandler) with hold | hnew
      · obtain ⟨k, hk⟩ := List.mem_iff_getElem?.mp hold
        exact hs k handler hk hunroutable
      · subst hnew
        have honward := step_onward hnext
        rw [honward.request] at hunroutable
        exact honward.free hunroutable (hs j before hbefore hunroutable)

-- ---------------------------------------------------------------------------
-- Agreement
-- ---------------------------------------------------------------------------

/-- What is true of a generation request that is routed: it goes on as it came, and
whoever answers it at the other end is the model its body names. A replica whose list
of models is the one the catalog was verified against answers by that very name. -/
structure Agreed (discover : Discovery) (parser : Parser) (req req' : Request)
    (upstream : UpstreamOrigin) (modelId : Str) : Prop where
  unchanged : req' = req
  nonempty : modelId ≠ []
  only : OnlyModel parser req.body.bytes modelId
  answered : ∀ (replica : Server.Replica) (sent : Request) (answer : Server.Answer),
    sent.method = req'.method → sent.path = req'.path → sent.body = req'.body →
    replica.answer parser sent = .ok answer →
      replica.served.namesThisModel modelId = true ∧ answer.modelId = replica.served.id ∧
        (discover upstream = .ok replica.models → answer.modelId = modelId)

/-- **Gateway and replica read one model**: a routed generation request is forwarded
unchanged and answered by the model it was routed by; one whose body does not name a
single non-empty model has no route, and has cost nothing at any time of any run. -/
theorem gateway_replica_agree (parser : Parser) (catalog : VerifiedModelCatalog discover)
    (limits : ModelSelectionLimits) (req : Request)
    (hgeneration : isCatalogGenerationRoute req = true) (detail : Option Str) (late : Bool) :
    (∀ route req', resolveRoute parser (.Catalog catalog limits) req detail late = .ok (route, req') →
      ∃ upstream modelId, route = .Forward upstream (some modelId) ∧
        Agreed discover parser req req' upstream modelId) ∧
    ((¬∃ modelId, modelId ≠ [] ∧ OnlyModel parser req.body.bytes modelId) →
      (∃ refusal, resolveRoute parser (.Catalog catalog limits) req detail late = .error refusal) ∧
      ∀ (state : GatewayState discover) (maxInFlight : Nat)
        (history : List (Entry InFlight Action Unit)) (s : InFlight) (i : Nat) (handler : Handler),
        state.routing = .Catalog catalog limits → state.parser = parser →
        (gateway state maxInFlight).Run history s → s.handlers[i]? = some handler →
        handler.request = req → handler.books.charges = 0 ∧ handler.permits = 0) := by
  constructor
  · intro route req' hroute
    rw [resolveRoute_generation hgeneration] at hroute
    obtain ⟨rfl, upstream, modelId, rfl, hnonempty, hlisted, honly⟩ := selectCatalogUpstream_ok hroute
    refine ⟨upstream, modelId, rfl, rfl, hnonempty, honly, ?_⟩
    intro replica sent answer hmethod hpath hbody hanswer
    unfold isCatalogGenerationRoute at hgeneration
    obtain ⟨hpost, hgenerates⟩ := Bool.and_eq_true_iff.mp hgeneration
    rw [← hbody] at honly
    obtain ⟨hnames, hanswers⟩ := replica_answers (hmethod.trans (of_decide_eq_true hpost))
      (by rw [hpath]; exact hgenerates) honly hanswer
    refine ⟨hnames, hanswers, fun hdiscover => ?_⟩
    -- the pool listed the id when the catalog was verified, and lists only its own
    obtain ⟨discovered, hdiscovered, hmember⟩ := catalog.advertised modelId upstream hlisted
    rw [hdiscover] at hdiscovered
    rw [← Except.ok.inj hdiscovered] at hmember
    rw [hanswers, replica.sameModel]
    exact (List.mem_singleton.mp hmember).symm
  · intro hnone
    have hunroutable : ∀ state : GatewayState discover, state.routing = .Catalog catalog limits →
        state.parser = parser → Unroutable state req := by
      intro state hrouting hparser
      refine ⟨?_, by rw [hparser]; exact hnone⟩
      unfold UpstreamRouting.selects
      rw [hrouting]
      exact hgeneration
    constructor
    · exact unroutable_refused
        (hunroutable ⟨.Catalog catalog limits, .Disabled, false, parser, fun _ _ => true⟩ rfl rfl)
        detail late
    · intro state maxInFlight history s i handler hrouting hparser run hhandler hreq
      have hfree := run_free run i handler hhandler (by rw [hreq]; exact hunroutable state hrouting hparser)
      exact ⟨hfree.1, hfree.permits⟩

-- ---------------------------------------------------------------------------
-- A catalog of one model
-- ---------------------------------------------------------------------------

def promptKey : Text := ['p', 'r', 'o', 'm', 'p', 't']

/-- `{"model":"m","prompt":"m"}` -/
def promptBody : List UInt8 := objectText [(modelKey, ownName), (promptKey, ownName)]

/-- What a JSON library reads in this body and in the string in it. -/
def promptParser : Parser where
  document body :=
    if body = promptBody then
      some (.object [(modelKey, .string ownName), (promptKey, .string ownName)])
    else if body = quoted ownName then some (.string ownName)
    else none
  entries body :=
    if body = promptBody then some [(modelKey, quoted ownName), (promptKey, quoted ownName)]
    else none
  toVec _ := none
  entries_object := by
    intro body members h
    split at h
    · rename_i hbody
      obtain rfl := Document.object.inj (Option.some.inj h)
      refine ⟨_, if_pos hbody, .cons ⟨rfl, rfl⟩ (.cons ⟨rfl, rfl⟩ .nil)⟩
    split at h
    · exact absurd h (by simp)
    · exact absurd h (by simp)
  entries_other := by
    intro body doc h hother
    split at h
    · exact absurd (Option.some.inj h).symm (hother _)
    · rename_i hbody
      exact if_neg hbody
  document_toVec h := absurd h (by simp)

def sampleDiscovery : Discovery := fun _ => .ok [ownName]

def sampleCatalog : VerifiedModelCatalog sampleDiscovery where
  catalog := ⟨[(ownName, sampleOrigin)]⟩
  advertised modelId origin h := by
    obtain ⟨rfl, rfl⟩ := Prod.mk.inj (List.mem_singleton.mp h)
    exact ⟨[ownName], rfl, List.mem_singleton_self _⟩

def sampleLimits : ModelSelectionLimits := ⟨1024, by decide⟩

/-- `application/json` -/
def jsonType : List UInt8 := [97, 112, 112, 108, 105, 99, 97, 116, 105, 111, 110, 47, 106, 115, 111, 110]

def promptRequest : Request :=
  ⟨"POST", "/v1/completions", [("content-type", jsonType)], .whole promptBody⟩

def sampleReplica : Server.Replica where
  served := sampleServed
  state := ⟨ownName, none, ⟨fun c => [c.toLower], fun _ _ => .error []⟩⟩
  extractor := ⟨fun _ => true, fun _ => ""⟩
  sameModel := rfl

/-- The request is routed by `m`, and the replica of the catalog answers as `m`. -/
theorem gateway_replica_agree_sample :
    resolveRoute promptParser (.Catalog sampleCatalog sampleLimits) promptRequest none false =
      .ok (.Forward sampleOrigin (some ownName), promptRequest) ∧
    ∃ answer, sampleReplica.answer promptParser promptRequest = .ok answer ∧
      answer.modelId = ownName := by
  have hroute : resolveRoute promptParser (.Catalog sampleCatalog sampleLimits) promptRequest none
      false = .ok (.Forward sampleOrigin (some ownName), promptRequest) := by decide +kernel
  have hanswer : sampleReplica.answer promptParser promptRequest =
      .ok ⟨ownName, .RawCompletion ownName, 16, false, false⟩ := by decide +kernel
  obtain ⟨upstream, modelId, hforward, hagreed⟩ := (gateway_replica_agree promptParser sampleCatalog
    sampleLimits promptRequest rfl none false).1 _ _ hroute
  obtain ⟨rfl, hmodel⟩ := RoutedRequest.Forward.inj hforward
  obtain rfl := Option.some.inj hmodel
  exact ⟨hroute, _, hanswer,
    (hagreed.answered sampleReplica promptRequest _ rfl rfl rfl hanswer).2.2 rfl⟩

end CamelidEnterprise.Gateway

import CamelidEnterprise.Gateway.Proxy

/-!
# Camelid Enterprise — what the gateway keeps account of

Every step of a handler is followed through three questions: where the admission
permits are (`step_permits`), what is in the books of the request (`step_kept`), and
under which request id it was written (`step_signed`).

The books are right, one audit line for every request and one usage line for every
charge, exactly for the requests that were not given up in the middle of their
handler (`accounted_iff`): a charge is in the books from the quota on, but nobody
owes a usage line for it before the handler returns.
-/

namespace CamelidEnterprise.Gateway

open Foundation Foundation.Json Foundation.Http Foundation.Text

variable {discover : Discovery} {state : GatewayState discover}

-- ---------------------------------------------------------------------------
-- Returning
-- ---------------------------------------------------------------------------

/-- A handler that leaves nobody with a usage record. -/
theorem audited_plain {audit : Bool} {handler : Handler} {outcome : Outcome} {response : Response}
    (hplain : outcome.usage = false) :
    audited audit handler outcome response =
      { handler.writeAudit audit outcome response.status with
        phase := .responding ⟨response.permit, none⟩ } := by
  unfold audited
  cases outcome.identity with
  | none => rfl
  | some identity => simp [hplain]

/-- A handler that leaves the response body with a usage record. -/
theorem audited_metered {audit : Bool} {handler : Handler} {outcome : Outcome} {response : Response}
    {identity : AuthenticatedContext} (hidentity : outcome.identity = some identity)
    (husage : outcome.usage = true) :
    audited audit handler outcome response =
      if response.ended then
        (handler.writeAudit audit outcome response.status).finish
          ⟨response.permit, some ((handler.writeAudit audit outcome response.status).usageRecord
            outcome identity response.status)⟩ "completed"
      else
        { handler.writeAudit audit outcome response.status with
          phase := .responding ⟨response.permit,
            some ((handler.writeAudit audit outcome response.status).usageRecord
              outcome identity response.status)⟩ } := by
  unfold audited
  simp [hidentity, husage]

/-- Finishing settles the record and leaves the permit where it is. -/
theorem finish_phase (handler : Handler) (body : ResponseBody) (outcome : String) :
    (handler.finish body outcome).phase = .responding ⟨body.permit, none⟩ := by
  obtain ⟨permit, tracker⟩ := body
  cases tracker with
  | none => rfl
  | some record => rfl

theorem audited_responding (audit : Bool) (handler : Handler) (outcome : Outcome)
    (response : Response) : ∃ tracker,
      (audited audit handler outcome response).phase = .responding ⟨response.permit, tracker⟩ := by
  by_cases husage : outcome.usage = true
  · cases hidentity : outcome.identity with
    | none =>
      refine ⟨none, ?_⟩
      unfold audited
      simp [hidentity]
    | some identity =>
      rw [audited_metered hidentity husage]
      by_cases hended : response.ended = true
      · rw [if_pos hended]
        exact ⟨none, finish_phase _ _ _⟩
      · rw [if_neg hended]
        exact ⟨_, rfl⟩
  · rw [audited_plain (by simpa using husage)]
    exact ⟨none, rfl⟩

theorem permits_eq {handler : Handler} {phase : Phase} (h : handler.phase = phase) :
    handler.permits = phase.permits :=
  congrArg Phase.permits h

theorem audited_permits (audit : Bool) (handler : Handler) (outcome : Outcome)
    (response : Response) :
    (audited audit handler outcome response).permits = if response.permit then 1 else 0 := by
  obtain ⟨tracker, hphase⟩ := audited_responding audit handler outcome response
  exact permits_eq hphase

/-- A response of the gateway itself has no permit. -/
theorem audited_json_permits (audit : Bool) (handler : Handler) (outcome : Outcome) (status : Nat) :
    (audited audit handler outcome (.json status)).permits = 0 :=
  audited_permits _ _ _ _

-- ---------------------------------------------------------------------------
-- What one step does
-- ---------------------------------------------------------------------------

/-- From a known identity on: refused, waiting to read the body, or routed. -/
theorem afterAuthentication_cases (state : GatewayState discover) (available : Nat) (handler : Handler)
    (identity : Option AuthenticatedContext) :
    (∃ refusal, afterAuthentication state available handler identity =
        (available, refuseRoute state handler identity refusal)) ∨
    (state.routing.selects handler.request = true ∧
      afterAuthentication state available handler identity =
        (available, { handler with phase := .acquiring identity })) ∨
    (state.routing.selects handler.request = false ∧
      afterAuthentication state available handler identity =
        afterSelection state available handler identity false) := by
  unfold afterAuthentication UpstreamRouting.selects
  cases state.routing with
  | Passthrough upstream => exact Or.inr (Or.inr ⟨rfl, rfl⟩)
  | Catalog catalog limits =>
    by_cases hroute : isCatalogGenerationRoute handler.request = true
    · cases hhead : modelSelectionHeadRefusal handler.request.headers limits with
      | some refusal => exact Or.inl ⟨refusal, by simp [hroute, hhead]⟩
      | none => exact Or.inr (Or.inl ⟨hroute, by simp [hroute, hhead]⟩)
    · exact Or.inr (Or.inr ⟨by simpa using hroute, by simp [hroute]⟩)

/-- From the body on: refused, or routed. -/
theorem afterSelection_cases (state : GatewayState discover) (available : Nat) (handler : Handler)
    (identity : Option AuthenticatedContext) (late : Bool) :
    (∃ refusal, resolveRoute state.parser state.routing handler.request handler.detailModelId late =
        .error refusal ∧
      afterSelection state available handler identity late =
        (available, refuseRoute state handler identity refusal)) ∨
    (∃ route request,
      resolveRoute state.parser state.routing handler.request handler.detailModelId late =
        .ok (route, request) ∧
      afterSelection state available handler identity late =
        afterRoute state available { handler with request } identity route) := by
  unfold afterSelection
  cases hroute : resolveRoute state.parser state.routing handler.request handler.detailModelId late with
  | error refusal => exact Or.inl ⟨refusal, rfl, rfl⟩
  | ok routed =>
    obtain ⟨route, request⟩ := routed
    exact Or.inr ⟨route, request, rfl, rfl⟩

/-- Admission: a response with the usage record of the request, or a permit and the
upstream. -/
theorem admission_cases (state : GatewayState discover) (available : Nat) (handler : Handler)
    (identity : Option AuthenticatedContext) (route : RoutedRequest) :
    (∃ reason modelId status, admission state available handler identity route =
        (available, audited state.audit handler
          ⟨identity, reason, modelId, state.auth.usage, false⟩ (.json status))) ∨
    ∃ left upstream modelId, available = left + 1 ∧ route = .Forward upstream modelId ∧
      admission state available handler identity route =
        (left, { handler with phase := .forwarding identity modelId }) := by
  cases available with
  | zero => exact Or.inl ⟨_, _, _, rfl⟩
  | succ left =>
    cases route with
    | Local response modelId => exact Or.inl ⟨_, _, _, rfl⟩
    | Forward upstream modelId =>
      by_cases huri : state.requestUri upstream handler.request = true
      · exact Or.inr ⟨left, upstream, modelId, rfl, rfl, by simp [admission, huri]⟩
      · exact Or.inl ⟨some "upstream_uri_invalid", modelId, 500, by simp [admission, huri]⟩

/-- From a route on: waiting for the quota, or admission. -/
theorem afterRoute_cases (state : GatewayState discover) (available : Nat) (handler : Handler)
    (identity : Option AuthenticatedContext) (route : RoutedRequest) :
    (∃ context quota, identity = some context ∧ state.auth.quota = some quota ∧
      afterRoute state available handler identity route =
        (available, { handler with phase := .charging context route })) ∨
    ((identity = none ∨ state.auth.quota = none) ∧
      afterRoute state available handler identity route =
        admission state available handler identity route) := by
  unfold afterRoute
  cases identity with
  | none => exact Or.inr ⟨Or.inl rfl, rfl⟩
  | some context =>
    cases hquota : state.auth.quota with
    | none => exact Or.inr ⟨Or.inr rfl, rfl⟩
    | some quota => exact Or.inl ⟨context, quota, rfl, rfl, rfl⟩

-- ---------------------------------------------------------------------------
-- Permits
-- ---------------------------------------------------------------------------

theorem refuseRoute_permits (handler : Handler) (identity : Option AuthenticatedContext)
    (refusal : RoutingRefusal) : (refuseRoute state handler identity refusal).permits = 0 :=
  audited_json_permits _ _ _ _

theorem refuseAuthentication_permits (handler : Handler) (refusal : AuthRefusal) :
    (refuseAuthentication state handler refusal).permits = 0 :=
  audited_json_permits _ _ _ _

theorem admission_permits (available : Nat) (handler : Handler)
    (identity : Option AuthenticatedContext) (route : RoutedRequest) :
    (admission state available handler identity route).1 +
      (admission state available handler identity route).2.permits = available := by
  rcases admission_cases state available handler identity route with
    ⟨reason, modelId, status, h⟩ | ⟨left, upstream, modelId, rfl, -, h⟩
  · rw [h, audited_json_permits]
    rfl
  · rw [h]
    rfl

theorem afterRoute_permits (available : Nat) (handler : Handler)
    (identity : Option AuthenticatedContext) (route : RoutedRequest) :
    (afterRoute state available handler identity route).1 +
      (afterRoute state available handler identity route).2.permits = available := by
  rcases afterRoute_cases state available handler identity route with
    ⟨context, quota, -, -, h⟩ | ⟨-, h⟩
  · rw [h]
    rfl
  · rw [h]
    exact admission_permits _ _ _ _

theorem afterSelection_permits (available : Nat) (handler : Handler)
    (identity : Option AuthenticatedContext) (late : Bool) :
    (afterSelection state available handler identity late).1 +
      (afterSelection state available handler identity late).2.permits = available := by
  rcases afterSelection_cases state available handler identity late with
    ⟨refusal, -, h⟩ | ⟨route, request, -, h⟩
  · rw [h, refuseRoute_permits]
    rfl
  · rw [h]
    exact afterRoute_permits _ _ _ _

theorem afterAuthentication_permits (available : Nat) (handler : Handler)
    (identity : Option AuthenticatedContext) :
    (afterAuthentication state available handler identity).1 +
      (afterAuthentication state available handler identity).2.permits = available := by
  rcases afterAuthentication_cases state available handler identity with
    ⟨refusal, h⟩ | ⟨-, h⟩ | ⟨-, h⟩
  · rw [h, refuseRoute_permits]
    rfl
  · rw [h]
    rfl
  · rw [h]
    exact afterSelection_permits _ _ _ _

theorem receive_permits (state : GatewayState discover) (available : Nat) (handler : Handler) :
    (receive state available handler).1 + (receive state available handler).2.permits =
      available := by
  unfold receive
  cases state.auth with
  | Disabled => exact afterAuthentication_permits _ _ _
  | RequireToken quota usage =>
    cases bearerToken handler.request.headers with
    | none => exact congrArg (available + ·) (refuseAuthentication_permits _ _)
    | some token => rfl

theorem finish_permits (handler : Handler) (body : ResponseBody) (outcome : String) :
    (handler.finish body outcome).permits = body.permits :=
  permits_eq (finish_phase handler body outcome)

theorem poll_permits (handler : Handler) (body : ResponseBody) (frame : BodyFrame) :
    (handler.poll body frame).permits = body.permits := by
  cases frame with
  | frame bytes last =>
    cases last with
    | true => exact finish_permits _ _ _
    | false => rfl
  | failed => exact finish_permits _ _ _
  | finished => exact finish_permits _ _ _

theorem background_permits {handler handler' : Handler} {event : Event}
    (h : background handler event = some handler') : handler'.permits = handler.permits := by
  unfold background at h
  split at h
  · rw [← Option.some.inj h]
    rfl
  · rw [← Option.some.inj h]
    rfl
  · exact absurd h (by simp)

@[simp] theorem charge_permits (handler : Handler) (charged : Bool) :
    (handler.charge charged).permits = handler.permits := by
  cases charged with
  | true => rfl
  | false => rfl

theorem afterQuota_permits {available : Nat} {handler : Handler} {identity : AuthenticatedContext}
    {route : RoutedRequest} {event : Event} {next : Nat × Handler}
    (h : afterQuota state available handler identity route event = some next) :
    next.1 + next.2.permits = available := by
  unfold afterQuota at h
  split at h
  · rw [← Option.some.inj h]
    exact admission_permits _ _ _ _
  · rw [← Option.some.inj h, audited_json_permits]
    rfl
  · split at h
    · rw [← Option.some.inj h, audited_json_permits]
      rfl
    · exact absurd h (by simp)
  · split at h
    · rw [← Option.some.inj h]
      rfl
    · exact absurd h (by simp)
  · exact absurd h (by simp)

theorem afterUpstream_permits {available : Nat} {handler : Handler}
    {identity : Option AuthenticatedContext} {modelId : Option Str} {event : Event}
    {next : Nat × Handler}
    (h : afterUpstream state available handler identity modelId event = some next) :
    next.1 + next.2.permits = available + 1 := by
  unfold afterUpstream at h
  split at h
  · rename_i status ended
    rw [← Option.some.inj h]
    show (if ended then available + 1 else available) + Handler.permits _ = available + 1
    rw [audited_permits]
    cases ended with
    | true => rfl
    | false => rfl
  · rw [← Option.some.inj h, audited_json_permits]
  · rw [← Option.some.inj h]
    rfl
  · exact absurd h (by simp)

theorem afterResponse_permits {available : Nat} {handler : Handler} {body : ResponseBody}
    {event : Event} {next : Nat × Handler}
    (h : afterResponse available handler body event = some next) :
    next.1 + next.2.permits = available + body.permits := by
  unfold afterResponse at h
  split at h
  · rename_i frame
    split at h
    · rw [← Option.some.inj h]
      show available + body.permits + Handler.permits _ = _
      rw [poll_permits]
      rfl
    · rw [← Option.some.inj h]
      show available + Handler.permits _ = _
      rw [poll_permits]
  · rw [← Option.some.inj h]
    rfl
  · exact absurd h (by simp)

/-- **No step gains or loses a permit.** -/
theorem step_permits {available : Nat} {handler : Handler} {event : Event} {next : Nat × Handler}
    (h : handler.step state available event = some next) :
    next.1 + next.2.permits = available + handler.permits := by
  unfold Handler.step at h
  split at h
  · rename_i handler' hbackground
    rw [← Option.some.inj h]
    show available + handler'.permits = _
    rw [background_permits hbackground]
  · -- a phase that holds a permit hands it on, or gives it back
    unfold course at h
    split at h
    · rename_i hphase _
      rw [← Option.some.inj h, afterAuthentication_permits, permits_eq hphase]
      rfl
    · rename_i hphase _
      rw [← Option.some.inj h, refuseAuthentication_permits, permits_eq hphase]
      rfl
    · rename_i hphase _
      rw [← Option.some.inj h, permits_eq hphase]
      rfl
    · rename_i hphase _
      rw [← Option.some.inj h, permits_eq hphase]
      rfl
    · rename_i hphase _
      rw [← Option.some.inj h, permits_eq hphase]
      rfl
    · rename_i hphase _
      rw [← Option.some.inj h, refuseRoute_permits, permits_eq hphase]
      rfl
    · rename_i hphase _
      rw [← Option.some.inj h, refuseRoute_permits, permits_eq hphase]
      rfl
    · rename_i hphase _
      rw [← Option.some.inj h, permits_eq hphase]
      rfl
    · rename_i hphase _
      rw [← Option.some.inj h, afterSelection_permits, permits_eq hphase]
      rfl
    · rename_i hphase _
      rw [← Option.some.inj h, permits_eq hphase]
      rfl
    · rename_i hphase _
      rw [permits_eq hphase]
      exact afterQuota_permits h
    · rename_i hphase _
      rw [permits_eq hphase]
      exact afterUpstream_permits h
    · rename_i hphase _
      rw [permits_eq hphase]
      exact afterResponse_permits h
    · exact absurd h (by simp)

-- ---------------------------------------------------------------------------
-- Books
-- ---------------------------------------------------------------------------

/-- The accounts of a request: one audit line, and a usage line if it was charged. -/
structure Handler.Accounted (handler : Handler) : Prop where
  audited : handler.books.audits.map AuditLine.requestId = [handler.requestId]
  charged : handler.books.charges ≠ 0 →
    handler.books.usages.map (fun line => line.record.requestId) = [handler.requestId]
  uncharged : handler.books.charges = 0 → handler.books.usages = []

/-- The request id of the usage record a response body still owes. -/
def ResponseBody.owed (body : ResponseBody) : List Str :=
  body.tracker.toList.map UsageRecord.requestId

/-- The books of a request whose handler has returned; `bad` if it was charged for a
refusal. -/
structure Handler.Returned (bad : Bool) (handler : Handler) (owed : List Str) : Prop where
  audited : handler.books.audits.map AuditLine.requestId = [handler.requestId]
  charges_le : handler.books.charges ≤ 1
  usages : bad = false → handler.books.usages.map (fun line => line.record.requestId) ++ owed =
    List.replicate handler.books.charges handler.requestId
  refused : bad = true → handler.books.charges = 1 ∧ handler.books.usages = [] ∧ owed = []

/-- What the books of a request say, phase by phase. -/
def Handler.Kept (bad : Bool) (handler : Handler) : Prop :=
  match handler.phase with
  | .authenticating => bad = false ∧ handler.books = ⟨0, [], []⟩
  | .acquiring identity => bad = false ∧ identity.isSome ∧ handler.books = ⟨0, [], []⟩
  | .selecting identity => bad = false ∧ identity.isSome ∧ handler.books = ⟨0, [], []⟩
  | .charging _ _ => bad = false ∧ handler.books = ⟨0, [], []⟩
  | .forwarding identity _ => bad = false ∧ identity.isSome ∧ handler.books = ⟨1, [], []⟩
  | .responding body => handler.Returned bad body.owed
  | .gone => handler.Accounted ↔ bad = false

/-- What goes wrong with a request: the handler ends before it returns, or a store
that charged it says it is not there. -/
def Handler.mishap (handler : Handler) : Event → Bool
  | .authenticationPanicked => true
  | .quotaUnavailable charged => charged
  | .dropped _ =>
    match handler.phase with
    | .responding _ => false
    | _ => true
  | _ => false

theorem kept_responding {bad : Bool} {handler : Handler} {body : ResponseBody}
    (hphase : handler.phase = .responding body) :
    handler.Kept bad ↔ handler.Returned bad body.owed := by
  unfold Handler.Kept
  rw [hphase]

/-- The body is gone: what it owed has been written. -/
theorem Handler.Returned.accounted {bad : Bool} {handler : Handler}
    (h : handler.Returned bad []) : handler.Accounted ↔ bad = false := by
  obtain ⟨haudited, hle, husages, hrefused⟩ := h
  constructor
  · intro haccounted
    by_contra hbad
    obtain ⟨hcharges, hnone, -⟩ := hrefused (by simpa using hbad)
    have hone := haccounted.charged (by omega)
    rw [hnone] at hone
    exact absurd hone (by simp)
  · intro hgood
    have hids := husages hgood
    rw [List.append_nil] at hids
    refine ⟨haudited, fun hcharged => ?_, fun huncharged => ?_⟩
    · have hone : handler.books.charges = 1 := by omega
      rw [hids, hone]
      rfl
    · rw [huncharged] at hids
      exact List.map_eq_nil_iff.mp hids

/-- A handler dropped before it returns leaves no audit line. -/
theorem not_accounted {handler : Handler} (h : handler.books.audits = []) :
    ¬handler.Accounted := by
  intro haccounted
  have haudited := haccounted.audited
  rw [h] at haudited
  exact absurd haudited (by simp)

/-- Settling the record keeps the books of a request that has returned. -/
theorem finish_returned {bad : Bool} {handler : Handler} {body : ResponseBody} {outcome : String}
    (h : handler.Returned bad body.owed) : (handler.finish body outcome).Returned bad [] := by
  obtain ⟨permit, tracker⟩ := body
  obtain ⟨haudited, hle, husages, hrefused⟩ := h
  cases tracker with
  | none => exact ⟨haudited, hle, husages, hrefused⟩
  | some record =>
    refine ⟨haudited, hle, fun hgood => ?_, fun hbad => ?_⟩
    · have hids := husages hgood
      show List.map _ (handler.books.usages ++ [_]) ++ [] =
        List.replicate handler.books.charges handler.requestId
      rw [List.map_append, List.append_nil]
      exact hids
    · exact absurd (hrefused hbad).2.2 (by simp [ResponseBody.owed])

theorem finish_kept {bad : Bool} {handler : Handler} {body : ResponseBody} {outcome : String}
    (h : handler.Returned bad body.owed) : (handler.finish body outcome).Kept bad :=
  (kept_responding (finish_phase _ _ _)).mpr (finish_returned h)

/-- The books are about the request id, the phase and what was written. -/
theorem Handler.Returned.congr {bad : Bool} {handler handler' : Handler} {owed : List Str}
    (h : handler.Returned bad owed) (hid : handler'.requestId = handler.requestId)
    (hbooks : handler'.books = handler.books) : handler'.Returned bad owed := by
  obtain ⟨haudited, hle, husages, hrefused⟩ := h
  refine ⟨?_, ?_, ?_, ?_⟩
  · rw [hbooks, hid]
    exact haudited
  · rw [hbooks]
    exact hle
  · rw [hbooks, hid]
    exact husages
  · rw [hbooks]
    exact hrefused

theorem Handler.Kept.congr {bad : Bool} {handler handler' : Handler} (h : handler.Kept bad)
    (hid : handler'.requestId = handler.requestId) (hphase : handler'.phase = handler.phase)
    (hbooks : handler'.books = handler.books) : handler'.Kept bad := by
  unfold Handler.Kept at h ⊢
  rw [hphase, hbooks]
  split
  · rename_i hat
    rw [hat] at h
    exact h
  · rename_i hat
    rw [hat] at h
    exact h
  · rename_i hat
    rw [hat] at h
    exact h
  · rename_i hat
    rw [hat] at h
    exact h
  · rename_i hat
    rw [hat] at h
    exact h
  · rename_i hat
    rw [hat] at h
    exact h.congr hid hbooks
  · rename_i hat
    rw [hat] at h
    refine Iff.trans ?_ h
    constructor
    · rintro ⟨haudited, hcharged, huncharged⟩
      rw [hbooks, hid] at haudited hcharged
      rw [hbooks] at huncharged
      exact ⟨haudited, hcharged, huncharged⟩
    · rintro ⟨haudited, hcharged, huncharged⟩
      rw [← hbooks, ← hid] at haudited hcharged
      rw [← hbooks] at huncharged
      exact ⟨haudited, hcharged, huncharged⟩

/-- Bytes that arrive change the record, not what is owed. -/
theorem poll_kept {bad : Bool} {handler : Handler} {body : ResponseBody} {frame : BodyFrame}
    {permit : Bool} (h : handler.Returned bad body.owed) :
    (handler.poll { body with permit } frame).Kept bad := by
  obtain ⟨_, tracker⟩ := body
  cases frame with
  | frame bytes last =>
    have howed : handler.Returned bad (ResponseBody.owed ⟨permit, tracker.map fun record =>
        { record with responseBytes := min (record.responseBytes + bytes) (2 ^ 64 - 1) }⟩) := by
      cases tracker with
      | none => exact h
      | some record => exact h
    cases last with
    | true => exact finish_kept howed
    | false => exact (kept_responding rfl).mpr (howed.congr rfl rfl)
  | failed => exact @finish_kept bad handler ⟨permit, tracker⟩ _ h
  | finished => exact @finish_kept bad handler ⟨permit, tracker⟩ _ h

section Metered

variable (haudit : state.audit = true) {quota : OrgQuota}
  (hauth : state.auth = .RequireToken (some quota) true)

/-- A refusal without a usage record: right as long as nothing was charged. -/
theorem audited_plain_kept {bad : Bool} {handler : Handler} {outcome : Outcome}
    {response : Response} (hplain : outcome.usage = false)
    (hbooks : handler.books = ⟨if bad then 1 else 0, [], []⟩) :
    (audited true handler outcome response).Kept bad := by
  rw [audited_plain hplain]
  refine (kept_responding rfl).mpr ⟨?_, ?_, fun hgood => ?_, fun hbad => ?_⟩
  · simp [Handler.writeAudit, Handler.auditLine, hbooks]
  · cases bad with
    | true => simp [Handler.writeAudit, hbooks]
    | false => simp [Handler.writeAudit, hbooks]
  · simp [Handler.writeAudit, hbooks, hgood, ResponseBody.owed]
  · simp [Handler.writeAudit, hbooks, hbad, ResponseBody.owed]

/-- A response after a charge leaves the body with the usage record. -/
theorem audited_metered_kept {handler : Handler} {outcome : Outcome} {response : Response}
    (hidentity : outcome.identity.isSome) (husage : outcome.usage = true)
    (hbooks : handler.books = ⟨1, [], []⟩) :
    (audited true handler outcome response).Kept false := by
  obtain ⟨identity, hidentity⟩ := Option.isSome_iff_exists.mp hidentity
  rw [audited_metered hidentity husage]
  have hreturned : (handler.writeAudit true outcome response.status).Returned false
      [handler.requestId] := by
    refine ⟨?_, ?_, fun _ => ?_, fun hbad => absurd hbad (by simp)⟩
    · simp [Handler.writeAudit, Handler.auditLine, hbooks]
    · simp [Handler.writeAudit, hbooks]
    · simp [Handler.writeAudit, hbooks]
  by_cases hended : response.ended = true
  · rw [if_pos hended]
    exact finish_kept hreturned
  · rw [if_neg hended]
    obtain ⟨haudited, hle, husages, hrefused⟩ := hreturned
    refine (kept_responding rfl).mpr ?_
    exact ⟨haudited, hle, husages, hrefused⟩

include haudit in
theorem refuseRoute_kept {handler : Handler} {identity : Option AuthenticatedContext}
    {refusal : RoutingRefusal} (hbooks : handler.books = ⟨0, [], []⟩) :
    (refuseRoute state handler identity refusal).Kept false := by
  unfold refuseRoute
  rw [haudit]
  exact audited_plain_kept rfl hbooks

include haudit in
theorem refuseAuthentication_kept {handler : Handler} {refusal : AuthRefusal}
    (hbooks : handler.books = ⟨0, [], []⟩) :
    (refuseAuthentication state handler refusal).Kept false := by
  unfold refuseAuthentication
  rw [haudit]
  exact audited_plain_kept rfl hbooks

include haudit hauth in
theorem admission_kept {available : Nat} {handler : Handler} {identity : Option AuthenticatedContext}
    {route : RoutedRequest} (hidentity : identity.isSome) (hbooks : handler.books = ⟨1, [], []⟩) :
    (admission state available handler identity route).2.Kept false := by
  have husage : state.auth.usage = true := by rw [hauth]; rfl
  rcases admission_cases state available handler identity route with
    ⟨reason, modelId, status, h⟩ | ⟨left, upstream, modelId, -, -, h⟩
  · rw [h, haudit]
    exact audited_metered_kept hidentity husage hbooks
  · rw [h]
    exact ⟨rfl, hidentity, hbooks⟩

include hauth in
/-- An organization that has a quota is asked for it. -/
theorem afterRoute_kept {available : Nat} {handler : Handler}
    {identity : Option AuthenticatedContext} {route : RoutedRequest} (hidentity : identity.isSome)
    (hbooks : handler.books = ⟨0, [], []⟩) :
    (afterRoute state available handler identity route).2.Kept false := by
  rcases afterRoute_cases state available handler identity route with
    ⟨context, _, -, -, h⟩ | ⟨hnone, -⟩
  · rw [h]
    exact ⟨rfl, hbooks⟩
  · rcases hnone with rfl | hquota
    · exact absurd hidentity (by simp)
    · rw [hauth] at hquota
      exact absurd hquota (by simp [GatewayAuth.quota])

include haudit hauth in
theorem afterSelection_kept {available : Nat} {handler : Handler}
    {identity : Option AuthenticatedContext} {late : Bool} (hidentity : identity.isSome)
    (hbooks : handler.books = ⟨0, [], []⟩) :
    (afterSelection state available handler identity late).2.Kept false := by
  rcases afterSelection_cases state available handler identity late with
    ⟨refusal, -, h⟩ | ⟨route, request, -, h⟩
  · rw [h]
    exact refuseRoute_kept haudit hbooks
  · rw [h]
    exact afterRoute_kept hauth hidentity hbooks

include haudit hauth in
theorem afterAuthentication_kept {available : Nat} {handler : Handler}
    {identity : Option AuthenticatedContext} (hidentity : identity.isSome)
    (hbooks : handler.books = ⟨0, [], []⟩) :
    (afterAuthentication state available handler identity).2.Kept false := by
  rcases afterAuthentication_cases state available handler identity with
    ⟨refusal, h⟩ | ⟨-, h⟩ | ⟨-, h⟩
  · rw [h]
    exact refuseRoute_kept haudit hbooks
  · rw [h]
    exact ⟨rfl, hidentity, hbooks⟩
  · rw [h]
    exact afterSelection_kept haudit hauth hidentity hbooks

include haudit hauth in
theorem receive_kept {available : Nat} {handler : Handler}
    (hbooks : handler.books = ⟨0, [], []⟩) :
    (receive state available handler).2.Kept false := by
  unfold receive
  rw [hauth]
  dsimp only
  cases bearerToken handler.request.headers with
  | none => exact refuseAuthentication_kept haudit hbooks
  | some token => exact ⟨rfl, hbooks⟩

/-- A handler dropped in front of its return. -/
theorem gone_kept {handler : Handler} (haudits : handler.books.audits = []) :
    { handler with phase := .gone }.Kept true :=
  iff_of_false (not_accounted haudits) (by simp)

include haudit hauth in
theorem afterQuota_kept {available : Nat} {handler : Handler} {identity : AuthenticatedContext}
    {route : RoutedRequest} {event : Event} {next : Nat × Handler}
    (hphase : handler.phase = .charging identity route) (hbooks : handler.books = ⟨0, [], []⟩)
    (h : afterQuota state available handler identity route event = some next) :
    next.2.Kept (handler.mishap event) := by
  unfold afterQuota at h
  split at h
  · rw [← Option.some.inj h]
    exact admission_kept haudit hauth rfl (by simp [Handler.charge, hbooks])
  · rw [← Option.some.inj h, haudit]
    dsimp only [Handler.mishap]
    exact audited_plain_kept rfl hbooks
  · rename_i charged
    split at h
    · rw [← Option.some.inj h, haudit]
      dsimp only [Handler.mishap]
      refine audited_plain_kept rfl ?_
      cases charged with
      | true => simp [Handler.charge, hbooks]
      | false => simp [Handler.charge, hbooks]
    · exact absurd h (by simp)
  · rename_i charged
    split at h
    · have hmishap : handler.mishap (.dropped charged) = true := by
        simp [Handler.mishap, hphase]
      rw [← Option.some.inj h, hmishap]
      refine @gone_kept (handler.charge charged) ?_
      cases charged with
      | true => simp [Handler.charge, hbooks]
      | false => simp [Handler.charge, hbooks]
    · exact absurd h (by simp)
  · exact absurd h (by simp)

include haudit hauth in
theorem afterUpstream_kept {available : Nat} {handler : Handler}
    {identity : Option AuthenticatedContext} {modelId : Option Str} {event : Event}
    {next : Nat × Handler} (hphase : handler.phase = .forwarding identity modelId)
    (hidentity : identity.isSome) (hbooks : handler.books = ⟨1, [], []⟩)
    (h : afterUpstream state available handler identity modelId event = some next) :
    next.2.Kept (handler.mishap event) := by
  have husage : state.auth.usage = true := by rw [hauth]; rfl
  unfold afterUpstream at h
  split at h
  · rw [← Option.some.inj h, haudit]
    exact audited_metered_kept hidentity husage hbooks
  · rw [← Option.some.inj h, haudit]
    exact audited_metered_kept hidentity husage hbooks
  · have hmishap : handler.mishap (.dropped false) = true := by
      simp [Handler.mishap, hphase]
    rw [← Option.some.inj h, hmishap]
    exact gone_kept (by rw [hbooks])
  · exact absurd h (by simp)

/-- What is dropped after the handler has returned is no mishap. -/
theorem responding_mishap {available : Nat} {handler : Handler} {body : ResponseBody}
    {event : Event} {next : Nat × Handler} (hphase : handler.phase = .responding body)
    (h : afterResponse available handler body event = some next) :
    handler.mishap event = false := by
  unfold afterResponse at h
  split at h
  · rfl
  · simp [Handler.mishap, hphase]
  · exact absurd h (by simp)

/-- A response body is polled or dropped: what it owes is written, once. -/
theorem afterResponse_kept {bad : Bool} {available : Nat} {handler : Handler} {body : ResponseBody}
    {event : Event} {next : Nat × Handler} (hreturned : handler.Returned bad body.owed)
    (h : afterResponse available handler body event = some next) : next.2.Kept bad := by
  unfold afterResponse at h
  split at h
  · split at h
    · rw [← Option.some.inj h]
      exact poll_kept hreturned
    · rw [← Option.some.inj h]
      exact poll_kept hreturned
  · rw [← Option.some.inj h]
    have hfinished : (handler.finish body (incompleteOutcome handler.connectionTermination)).Returned
        bad [] := finish_returned hreturned
    obtain ⟨haudited, hle, husages, hrefused⟩ := hfinished
    exact Handler.Returned.accounted ⟨haudited, hle, husages, hrefused⟩
  · exact absurd h (by simp)

theorem background_kept {bad : Bool} {handler handler' : Handler} {event : Event}
    (hkept : handler.Kept bad) (h : background handler event = some handler') :
    handler'.Kept (bad || handler.mishap event) := by
  unfold background at h
  split at h
  · rw [← Option.some.inj h]
    show Handler.Kept (bad || false) _
    rw [Bool.or_false]
    exact hkept.congr rfl rfl rfl
  · rw [← Option.some.inj h]
    show Handler.Kept (bad || false) _
    rw [Bool.or_false]
    exact hkept.congr rfl rfl rfl
  · exact absurd h (by simp)

/-- The books at an await of a handler. -/
theorem kept_at {bad : Bool} {handler : Handler} (h : handler.Kept bad) {phase : Phase}
    (hphase : handler.phase = phase) : Handler.Kept bad { handler with phase } :=
  h.congr rfl hphase.symm rfl

include haudit hauth in
theorem course_kept {bad : Bool} {available : Nat} {handler : Handler} {event : Event}
    {next : Nat × Handler} (hkept : handler.Kept bad)
    (h : course state available handler event = some next) :
    next.2.Kept (bad || handler.mishap event) := by
  -- one case for each phase and the event it waits for; only a drop or a panic is a mishap
  unfold course at h
  split at h
  · rename_i hphase
    obtain ⟨rfl, hbooks⟩ := kept_at hkept hphase
    rw [← Option.some.inj h]
    exact afterAuthentication_kept haudit hauth rfl hbooks
  · rename_i hphase
    obtain ⟨rfl, hbooks⟩ := kept_at hkept hphase
    rw [← Option.some.inj h]
    exact refuseAuthentication_kept haudit hbooks
  · rename_i hphase
    obtain ⟨rfl, hbooks⟩ := kept_at hkept hphase
    rw [← Option.some.inj h]
    exact gone_kept (congrArg Books.audits hbooks)
  · rename_i hphase
    obtain ⟨rfl, hbooks⟩ := kept_at hkept hphase
    rw [← Option.some.inj h, Handler.mishap, hphase]
    exact gone_kept (congrArg Books.audits hbooks)
  · rename_i hphase
    obtain ⟨rfl, hidentity, hbooks⟩ := kept_at hkept hphase
    rw [← Option.some.inj h]
    exact ⟨rfl, hidentity, hbooks⟩
  · rename_i hphase
    obtain ⟨rfl, hidentity, hbooks⟩ := kept_at hkept hphase
    rw [← Option.some.inj h]
    exact refuseRoute_kept haudit hbooks
  · rename_i hphase
    obtain ⟨rfl, hidentity, hbooks⟩ := kept_at hkept hphase
    rw [← Option.some.inj h]
    exact refuseRoute_kept haudit hbooks
  · rename_i hphase
    obtain ⟨rfl, hidentity, hbooks⟩ := kept_at hkept hphase
    rw [← Option.some.inj h, Handler.mishap, hphase]
    exact gone_kept (congrArg Books.audits hbooks)
  · rename_i hphase
    obtain ⟨rfl, hidentity, hbooks⟩ := kept_at hkept hphase
    rw [← Option.some.inj h]
    exact afterSelection_kept haudit hauth hidentity hbooks
  · rename_i hphase
    obtain ⟨rfl, hidentity, hbooks⟩ := kept_at hkept hphase
    rw [← Option.some.inj h, Handler.mishap, hphase]
    exact gone_kept (congrArg Books.audits hbooks)
  · rename_i hphase
    obtain ⟨rfl, hbooks⟩ := kept_at hkept hphase
    exact afterQuota_kept haudit hauth hphase hbooks h
  · rename_i hphase
    obtain ⟨rfl, hidentity, hbooks⟩ := kept_at hkept hphase
    exact afterUpstream_kept haudit hauth hphase hidentity hbooks h
  · rename_i hphase
    have hmishap := responding_mishap hphase h
    rw [hmishap, Bool.or_false]
    exact afterResponse_kept ((kept_responding hphase).mp hkept) h
  · exact absurd h (by simp)

include haudit hauth in
/-- **The books through one step.** -/
theorem step_kept {bad : Bool} {available : Nat} {handler : Handler} {event : Event}
    {next : Nat × Handler} (hkept : handler.Kept bad)
    (h : handler.step state available event = some next) :
    next.2.Kept (bad || handler.mishap event) := by
  unfold Handler.step at h
  split at h
  · rename_i handler' hbackground
    rw [← Option.some.inj h]
    exact background_kept hkept hbackground
  · exact course_kept haudit hauth hkept h

end Metered

-- ---------------------------------------------------------------------------
-- Runs
-- ---------------------------------------------------------------------------

/-- What one action does: a request more, or one request a step further. -/
theorem inFlight_step_cases {s s' : InFlight} {action : Action}
    (h : s.step state action = some s') :
    (∃ arrival, action = .arrive arrival ∧
      s' = ⟨(receive state s.available arrival.handler).1,
        s.handlers ++ [(receive state s.available arrival.handler).2]⟩) ∨
    ∃ (i : Nat) (event : Event) (handler : Handler) (next : Nat × Handler),
      action = .event i event ∧ s.handlers[i]? = some handler ∧
      handler.step state s.available event = some next ∧
      s' = ⟨next.1, s.handlers.set i next.2⟩ := by
  cases action with
  | arrive arrival => exact Or.inl ⟨arrival, rfl, (Option.some.inj h).symm⟩
  | event i event =>
    obtain ⟨handler, hhandler, hrest⟩ := Option.bind_eq_some_iff.mp h
    obtain ⟨next, hnext, hs'⟩ := Option.bind_eq_some_iff.mp hrest
    exact Or.inr ⟨i, event, handler, next, rfl, hhandler, hnext, (Option.some.inj hs').symm⟩

/-- The permits in the semaphore and with the requests are those the gateway has. -/
theorem run_permits {maxInFlight : Nat} {history : List (Entry InFlight Action Unit)}
    {s : InFlight} (run : (gateway state maxInFlight).Run history s) :
    s.available + (s.handlers.map Handler.permits).sum = maxInFlight := by
  refine run.invariant (I := fun s => s.available + (s.handlers.map Handler.permits).sum =
    maxInFlight) ?_ ?_
  · rintro s rfl
    rfl
  · intro s action _ s' hs hstep
    rcases inFlight_step_cases hstep with
      ⟨arrival, -, rfl⟩ | ⟨i, event, handler, next, -, hhandler, hnext, rfl⟩
    · have hpermits := receive_permits state s.available arrival.handler
      simp only [List.map_append, List.sum_append, List.map_cons, List.map_nil, List.sum_cons,
        List.sum_nil]
      omega
    · have hpermits := step_permits hnext
      obtain ⟨front, back, hsplit, hset⟩ := set_split hhandler
      rw [hsplit] at hs
      rw [hset]
      simp only [List.map_append, List.sum_append, List.map_cons, List.sum_cons] at hs ⊢
      omega

/-- Whether a step was a mishap of the request. -/
def mishapOf (i : Nat) (entry : Entry InFlight Action Unit) : Bool :=
  match entry.action with
  | .arrive _ => false
  | .event j event =>
    j == i && (entry.before.handlers[i]?).any fun handler => handler.mishap event

/-- The books of all requests, in view of what happened to each. -/
structure AllKept (history : List (Entry InFlight Action Unit)) (s : InFlight) : Prop where
  kept : ∀ (i : Nat) handler, s.handlers[i]? = some handler →
    handler.Kept (history.any (mishapOf i))
  fresh : ∀ i, s.handlers.length ≤ i → history.any (mishapOf i) = false

theorem any_mishapOf_snoc (history : List (Entry InFlight Action Unit))
    (entry : Entry InFlight Action Unit) (i : Nat) :
    (history ++ [entry]).any (mishapOf i) = (history.any (mishapOf i) || mishapOf i entry) := by
  rw [List.any_append, List.any_cons, List.any_nil, Bool.or_false]

section MeteredRuns

variable (haudit : state.audit = true) {quota : OrgQuota}
  (hauth : state.auth = .RequireToken (some quota) true)

include haudit hauth in
theorem run_kept {maxInFlight : Nat} {history : List (Entry InFlight Action Unit)} {s : InFlight}
    (run : (gateway state maxInFlight).Run history s) : AllKept history s := by
  refine run.history_induction (P := AllKept) ?_ ?_
  · rintro s rfl
    exact ⟨fun i handler h => absurd h (by simp), fun i _ => rfl⟩
  · intro history s action _ s' _ hs hstep
    obtain ⟨hkept, hfresh⟩ := hs
    rcases inFlight_step_cases hstep with
      ⟨arrival, rfl, rfl⟩ | ⟨j, event, handler, next, rfl, hhandler, hnext, rfl⟩
    · refine ⟨fun i handler hi => ?_, fun i hi => ?_⟩
      · rw [any_mishapOf_snoc, show mishapOf i _ = false from rfl, Bool.or_false]
        rcases Nat.lt_or_ge i s.handlers.length with hlt | hge
        · rw [List.getElem?_append_left hlt] at hi
          exact hkept i handler hi
        · -- the new request has no history
          rw [hfresh i hge]
          rw [List.getElem?_append_right hge, List.getElem?_singleton] at hi
          split at hi
          · rw [← Option.some.inj hi]
            exact receive_kept haudit hauth rfl
          · exact absurd hi (by simp)
      · rw [any_mishapOf_snoc, show mishapOf i _ = false from rfl, Bool.or_false]
        rw [List.length_append] at hi
        exact hfresh i (by omega)
    · have hj : j < s.handlers.length := (List.getElem?_eq_some_iff.mp hhandler).1
      refine ⟨fun i handler' hi => ?_, fun i hi => ?_⟩
      · rw [any_mishapOf_snoc]
        rw [List.getElem?_set] at hi
        by_cases hij : j = i
        · subst hij
          rw [if_pos rfl, if_pos hj] at hi
          rw [← Option.some.inj hi]
          have hmishap : ∀ s', mishapOf j ⟨s, .event j event, (), s'⟩ = handler.mishap event := by
            simp [mishapOf, hhandler]
          rw [hmishap]
          exact step_kept haudit hauth (hkept j handler hhandler) hnext
        · rw [if_neg hij] at hi
          have hmishap : ∀ s', mishapOf i ⟨s, .event j event, (), s'⟩ = false := by
            simp [mishapOf, hij]
          rw [hmishap, Bool.or_false]
          exact hkept i handler' hi
      · rw [List.length_set] at hi
        have hij : j ≠ i := by omega
        rw [any_mishapOf_snoc, hfresh i hi]
        simp [mishapOf, hij]

end MeteredRuns

/-- **The accounts of the gateway**, with a quota and both logs: whatever comes in and
whatever happens, when a request is gone its permit is back, and its accounts are right
exactly unless it had a mishap. -/
theorem accounted_iff (haudit : state.audit = true) {quota : OrgQuota}
    (hauth : state.auth = .RequireToken (some quota) true) {maxInFlight : Nat}
    {history : List (Entry InFlight Action Unit)} {s : InFlight}
    (run : (gateway state maxInFlight).Run history s) :
    s.available + (s.handlers.map Handler.permits).sum = maxInFlight ∧
    ∀ (i : Nat) handler, s.handlers[i]? = some handler → handler.phase = .gone →
      handler.permits = 0 ∧ (handler.Accounted ↔ ∀ entry ∈ history, mishapOf i entry = false) := by
  refine ⟨run_permits run, fun i handler hhandler hgone => ⟨permits_eq hgone, ?_⟩⟩
  have hkept := kept_at ((run_kept haudit hauth run).kept i handler hhandler) hgone
  have hiff : handler.Accounted ↔ history.any (mishapOf i) = false := by
    refine Iff.trans ?_ hkept
    exact ⟨fun h => ⟨h.1, h.2, h.3⟩, fun h => ⟨h.1, h.2, h.3⟩⟩
  rw [hiff, List.any_eq_false]
  simp

-- ---------------------------------------------------------------------------
-- Two requests
-- ---------------------------------------------------------------------------

def sampleOrigin : UpstreamOrigin := ⟨"replica:8181"⟩

/-- One upstream, a quota of this process, both logs. -/
def sampleState : GatewayState fun _ => .error "" where
  routing := .Passthrough sampleOrigin
  auth := .RequireToken (some .InProcess) true
  audit := true
  parser := Surface.sampleParser
  requestUri _ _ := true

def sampleIdentity : AuthenticatedContext := ⟨['p'], ['o']⟩

/-- `GET /v1/health` with the token `t`. -/
def sampleArrival : Arrival where
  requestId := ['r']
  request := ⟨"GET", "/v1/health", [("authorization", [98, 101, 97, 114, 101, 114, 32, 116])], .whole []⟩
  detailModelId := none
  connectionTermination := none

def sampleHandler (phase : Phase) (books : Books) : Handler :=
  { sampleArrival.handler with phase, books }

def sampleRoute : RoutedRequest := .Forward sampleOrigin none

theorem run_step {maxInFlight : Nat} {history : List (Entry InFlight Action Unit)} {s s' : InFlight}
    {action : Action} (run : (gateway state maxInFlight).Run history s)
    (h : s.step state action = some s') :
    (gateway state maxInFlight).Run (history ++ [⟨s, action, (), s'⟩]) s' :=
  .snoc run h

/-- Up to the request to the upstream. -/
theorem sampleRun_forwarding : ∃ history,
    (gateway sampleState 1).Run history
      ⟨0, [sampleHandler (.forwarding (some sampleIdentity) none) ⟨1, [], []⟩]⟩ ∧
    ∀ entry ∈ history, mishapOf 0 entry = false := by
  have harrive : (⟨1, []⟩ : InFlight).step sampleState (.arrive sampleArrival) =
      some ⟨1, [sampleHandler .authenticating ⟨0, [], []⟩]⟩ := by decide +kernel
  have hauthenticate : (⟨1, [sampleHandler .authenticating ⟨0, [], []⟩]⟩ : InFlight).step sampleState
      (.event 0 (.authenticated sampleIdentity)) =
        some ⟨1, [sampleHandler (.charging sampleIdentity sampleRoute) ⟨0, [], []⟩]⟩ := by rfl
  have hcharge : (⟨1, [sampleHandler (.charging sampleIdentity sampleRoute) ⟨0, [], []⟩]⟩ :
      InFlight).step sampleState (.event 0 .quotaAdmitted) =
        some ⟨0, [sampleHandler (.forwarding (some sampleIdentity) none) ⟨1, [], []⟩]⟩ := by rfl
  refine ⟨_, run_step (run_step (run_step (.nil rfl) harrive) hauthenticate) hcharge, ?_⟩
  intro entry hentry
  simp only [List.nil_append, List.cons_append, List.mem_cons, List.not_mem_nil, or_false] at hentry
  rcases hentry with rfl | rfl | rfl
  · rfl
  · rfl
  · rfl

def sampleOutcome : Outcome := ⟨some sampleIdentity, none, none, true, true⟩

/-- What is written for the request when it comes to its end. -/
def sampleBooks : Books :=
  ⟨1, [sampleArrival.handler.auditLine sampleOutcome 200],
    [⟨sampleArrival.handler.usageRecord sampleOutcome sampleIdentity 200, none, "completed"⟩]⟩

/-- A request that is answered and read to its end has its accounts. -/
theorem accounted_sample : ∃ history s,
    (gateway sampleState 1).Run history s ∧ s.available = 1 ∧
    ∃ handler, s.handlers[0]? = some handler ∧ handler.books.charges = 1 ∧ handler.Accounted := by
  obtain ⟨history, run, hplain⟩ := sampleRun_forwarding
  have hanswer : (⟨0, [sampleHandler (.forwarding (some sampleIdentity) none) ⟨1, [], []⟩]⟩ :
      InFlight).step sampleState (.event 0 (.answered 200 true)) =
        some ⟨1, [sampleHandler (.responding ⟨false, none⟩) sampleBooks]⟩ := by rfl
  have hdrop : (⟨1, [sampleHandler (.responding ⟨false, none⟩) sampleBooks]⟩ : InFlight).step
      sampleState (.event 0 (.dropped false)) = some ⟨1, [sampleHandler .gone sampleBooks]⟩ := by rfl
  have haccounts := accounted_iff rfl rfl (run_step (run_step run hanswer) hdrop)
  refine ⟨_, _, run_step (run_step run hanswer) hdrop, rfl, sampleHandler .gone sampleBooks, rfl, rfl,
    (haccounts.2 0 _ rfl rfl).2.mpr fun entry hentry => ?_⟩
  rcases List.mem_append.mp hentry with hentry | hentry
  · rcases List.mem_append.mp hentry with hentry | hentry
    · exact hplain entry hentry
    · rw [List.mem_singleton.mp hentry]
      rfl
  · rw [List.mem_singleton.mp hentry]
    rfl

/-- Not every charge has a usage record: the client goes away while the upstream is
asked, and nothing is written for the request, to either log. -/
theorem charged_unrecorded : ¬∀ (discover : Discovery) (state : GatewayState discover)
    (quota : OrgQuota) (maxInFlight : Nat) (history : List (Entry InFlight Action Unit))
    (s : InFlight), state.audit = true → state.auth = .RequireToken (some quota) true →
      (gateway state maxInFlight).Run history s → ∀ (i : Nat) handler,
        s.handlers[i]? = some handler → handler.phase = .gone → handler.Accounted := by
  intro hall
  obtain ⟨history, run, -⟩ := sampleRun_forwarding
  have hdrop : (⟨0, [sampleHandler (.forwarding (some sampleIdentity) none) ⟨1, [], []⟩]⟩ :
      InFlight).step sampleState (.event 0 (.dropped false)) =
        some ⟨1, [sampleHandler .gone ⟨1, [], []⟩]⟩ := by rfl
  have haccounted := hall _ sampleState .InProcess 1 _ _ rfl rfl (run_step run hdrop) 0 _ rfl rfl
  have hrecord := haccounted.charged (by decide)
  exact absurd hrecord (by decide)

end CamelidEnterprise.Gateway

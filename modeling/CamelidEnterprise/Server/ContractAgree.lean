import CamelidEnterprise.Server.Contract

/-!
# Camelid Enterprise — the filter and the router agree

The route filter of a replica decides by the contract's list and a matching of its own; the
router behind it decides by its registrations and its own matching. Both take a path segment by
segment, and the two lists name the same paths with the same methods, so what the filter lets
through is what the router answers: no request gets through to a `404` or a `405`, and none that
a handler would take is held back.

Key result: `surfaced_exact`.
-/

namespace CamelidEnterprise.Server

open Foundation Foundation.Json Foundation.Http

-- ---------------------------------------------------------------------------
-- Paths
-- ---------------------------------------------------------------------------

theorem segmentMatches_iff {expected actual : Str} :
    segmentMatches expected actual = true ↔ Takes expected actual := by
  unfold segmentMatches Takes
  split
  · simp
  · simp

theorem segmentsMatch_iff {pattern path : List Str} :
    segmentsMatch pattern path = true ↔ List.Forall₂ Takes pattern path := by
  induction pattern generalizing path with
  | nil =>
    cases path with
    | nil => simp [segmentsMatch]
    | cons actual path => simp [segmentsMatch]
  | cons expected pattern ih =>
    cases path with
    | nil => simp [segmentsMatch]
    | cons actual path =>
      rw [segmentsMatch, Bool.and_eq_true, ih, segmentMatches_iff, List.forall₂_cons]

/-- The filter's matching is the one a router is known by. -/
theorem pathMatches_iff (pattern path : Str) :
    pathMatches pattern path = true ↔ Fits pattern path :=
  segmentsMatch_iff

/-- A path is its segments. -/
theorem segments_injective {path other : Str} (h : segments path = segments other) :
    path = other := by
  rw [← @List.intercalate_splitOn _ path _ _ '/', ← @List.intercalate_splitOn _ other _ _ '/']
  exact congrArg ['/'].intercalate h

/-- A pattern without parameters takes itself only. -/
theorem fits_literal {pattern path : Str}
    (hliteral : ∀ segment ∈ segments pattern, segment.head? ≠ some ':') :
    Fits pattern path ↔ path = pattern := by
  have hsame : ∀ {expected actual : List Str}, (∀ segment ∈ expected, segment.head? ≠ some ':') →
      (List.Forall₂ Takes expected actual ↔ expected = actual) := by
    intro expected
    induction expected with
    | nil =>
      intro actual _
      cases actual with
      | nil => simp
      | cons segment actual => simp
    | cons first expected ih =>
      intro actual hliteral
      cases actual with
      | nil => simp
      | cons segment actual =>
        rw [List.forall₂_cons, ih fun s hs => hliteral s (List.mem_cons_of_mem _ hs),
          takes_of_head_ne (hliteral first List.mem_cons_self), List.cons.injEq]
  unfold Fits
  rw [hsame hliteral]
  exact ⟨fun h => (segments_injective h).symm, fun h => by rw [h]⟩

-- ---------------------------------------------------------------------------
-- The two lists
-- ---------------------------------------------------------------------------

theorem routes_separate : Separate routes := ⟨by decide +kernel, by decide +kernel⟩

/-- The contract and the registrations name the same paths with the same methods. -/
theorem publicRoutes_registered :
    publicRoutes.map (fun spec => (spec.path.toList, spec.methods.map declaredAsHttp)) =
      routes.map fun route => (route.pattern, [route.method]) := by
  decide +kernel

/-- What the filter lets through, by the registrations. -/
theorem isServed_iff {method path : String} : isServed method path = true ↔
    ∃ route ∈ routes, Fits route.pattern path.toList ∧
      (method = "OPTIONS" ∨ answersMethod route.method method = true) := by
  have hany : isServed method path =
      (publicRoutes.map fun spec => (spec.path.toList, spec.methods.map declaredAsHttp)).any
        fun entry => pathMatches entry.1 path.toList && (decide (method = "OPTIONS") ||
          entry.2.any fun declared => answersMethod declared method) := by
    unfold isServed methodIsAdmitted
    rw [List.any_map]
    refine congrArg publicRoutes.any (funext fun spec => ?_)
    rw [Function.comp_apply, List.any_map]
    rfl
  rw [hany, publicRoutes_registered, List.any_map, List.any_eq_true]
  refine exists_congr fun route => and_congr_right fun _ => ?_
  rw [Function.comp_apply, Bool.and_eq_true, pathMatches_iff]
  simp

-- ---------------------------------------------------------------------------
-- Requests
-- ---------------------------------------------------------------------------

/-- A request asks for an endpoint: a route of it takes the path and answers the method. -/
def Asks (req : Request) (endpoint : Endpoint) : Prop :=
  req.method ≠ "OPTIONS" ∧ ∃ route ∈ routes, Fits route.pattern req.path.toList ∧
    answersMethod route.method req.method = true ∧ route.handler = endpoint

/-- A browser asks whether it may. -/
def AsksBefore (req : Request) : Prop :=
  req.method = "OPTIONS" ∧ ∃ route ∈ routes, Fits route.pattern req.path.toList

/-- The endpoints whose bodies name a model. -/
def Endpoint.Generates (endpoint : Endpoint) : Prop :=
  endpoint = .completions ∨ endpoint = .chatCompletions

/-- The filter's matching is one a router may have. -/
def filterMatcher : Matcher := ⟨pathMatches, fun _ path => pathMatches_iff _ path⟩

/-- A router that would do in place of the library's. -/
def filterRouter : Router := .inOrder filterMatcher

/-- A request asks for one endpoint. -/
theorem Asks.unique {req : Request} {endpoint other : Endpoint} (h : Asks req endpoint)
    (h' : Asks req other) : endpoint = other := by
  have hdispatch := (filterRouter.handled_iff routes_separate).mpr h
  have hdispatch' := (filterRouter.handled_iff routes_separate).mpr h'
  exact Dispatch.handled.inj (hdispatch.symm.trans hdispatch')

/-- The filter lets through what the router answers. -/
theorem isServed_iff_asks {req : Request} : isServed req.method req.path = true ↔
    (∃ endpoint, Asks req endpoint) ∨ AsksBefore req := by
  rw [isServed_iff]
  constructor
  · rintro ⟨route, hroute, hfits, hmethod⟩
    by_cases hoptions : req.method = "OPTIONS"
    · exact .inr ⟨hoptions, route, hroute, hfits⟩
    · exact .inl ⟨route.handler, hoptions, route, hroute, hfits, hmethod.resolve_left hoptions, rfl⟩
  · rintro (⟨endpoint, -, route, hroute, hfits, hmethod, -⟩ | ⟨hoptions, route, hroute, hfits⟩)
    · exact ⟨route, hroute, hfits, .inr hmethod⟩
    · exact ⟨route, hroute, hfits, .inl hoptions⟩

/-- The paths of the generation endpoints are written out. -/
theorem generates_iff {req : Request} {endpoint : Endpoint} (h : Asks req endpoint) :
    endpoint.Generates ↔ req.method = "POST" ∧ Surface.isGenerationPath req.path = true := by
  have hpaths : ∀ route ∈ routes, route.handler.Generates → route.method = "POST" ∧
      (route.pattern = "/v1/completions".toList ∨ route.pattern = "/v1/chat/completions".toList) := by
    unfold Endpoint.Generates
    decide +kernel
  have hhandlers : ∀ route ∈ routes, (route.pattern = "/v1/completions".toList ∨
      route.pattern = "/v1/chat/completions".toList) → route.handler.Generates := by
    unfold Endpoint.Generates
    decide +kernel
  have hliteral : ∀ pattern : Str, pattern = "/v1/completions".toList ∨
      pattern = "/v1/chat/completions".toList →
      ∀ segment ∈ segments pattern, segment.head? ≠ some ':' := by
    rintro pattern (rfl | rfl)
    · decide +kernel
    · decide +kernel
  obtain ⟨hoptions, route, hroute, hfits, hanswers, rfl⟩ := h
  unfold Surface.isGenerationPath
  rw [Bool.or_eq_true, decide_eq_true_iff, decide_eq_true_iff]
  constructor
  · intro hgenerates
    obtain ⟨hmethod, hpattern⟩ := hpaths route hroute hgenerates
    have hpath := (fits_literal (hliteral _ hpattern)).mp hfits
    refine ⟨?_, ?_⟩
    · unfold answersMethod at hanswers
      rw [hmethod] at hanswers
      simpa using hanswers
    · rw [← hpath] at hpattern
      exact hpattern.imp String.toList_inj.mp String.toList_inj.mp
  · rintro ⟨-, hpath⟩
    -- the route is the one of the path that is written out
    have hpath' : req.path.toList = "/v1/completions".toList ∨
        req.path.toList = "/v1/chat/completions".toList :=
      hpath.imp (congrArg String.toList) (congrArg String.toList)
    have hother : ∀ pattern, pattern = req.path.toList →
        (pattern = "/v1/completions".toList ∨ pattern = "/v1/chat/completions".toList) →
        (∃ other ∈ routes, other.pattern = pattern) → route.handler.Generates := by
      rintro pattern rfl hpattern ⟨other, hmem, hsame⟩
      have hfits' : Fits other.pattern req.path.toList := by
        rw [hsame]
        exact (fits_literal (hliteral _ hpattern)).mpr rfl
      have hroutes : route = other := Option.some.inj
        ((@find?_of_mem _ filterMatcher _ routes_separate _ hroute _ hfits).symm.trans
          (find?_of_mem routes_separate hmem hfits'))
      rw [hroutes]
      exact hhandlers other hmem (hsame ▸ hpattern)
    refine hother _ rfl hpath' ?_
    rcases hpath' with h | h
    · rw [h]
      decide +kernel
    · rw [h]
      decide +kernel

/-- The body filter leaves the head of a request alone. -/
theorem pin_keeps {parser : Parser} {served : Surface.ServedModel} {req req' : Request}
    (h : Surface.pinGenerationToTheServedModel parser served req = .forwarded req') :
    req'.method = req.method ∧ req'.path = req.path := by
  by_cases hgenerates : req.method = "POST" ∧ Surface.isGenerationPath req.path = true
  · obtain ⟨-, -, -, -, ⟨-, rfl⟩ | ⟨-, -, -, rfl⟩⟩ :=
      Surface.forwarded_cases hgenerates.1 hgenerates.2 h
    · exact ⟨rfl, rfl⟩
    · exact ⟨rfl, rfl⟩
  · unfold Surface.pinGenerationToTheServedModel at h
    rw [if_pos hgenerates] at h
    obtain rfl := Surface.Filtered.forwarded.inj h
    exact ⟨rfl, rfl⟩

theorem pin_of_not_generation {parser : Parser} {served : Surface.ServedModel} {req : Request}
    (h : ¬(req.method = "POST" ∧ Surface.isGenerationPath req.path = true)) :
    Surface.pinGenerationToTheServedModel parser served req = .forwarded req := by
  unfold Surface.pinGenerationToTheServedModel
  rw [if_pos h]

section Surface

variable {library : Library} {axum : Axum} {served : Surface.ServedModel} {σ : Type}
  {api : ApiState σ} {req : Request} {endpoint : Endpoint}

/-- The router behind the filters, on a request for an endpoint. -/
theorem router_of_asks (h : Asks req endpoint) (state : σ) :
    router library axum api req state = routed library axum api endpoint req state := by
  unfold router
  rw [(axum.router.handled_iff routes_separate).mpr h]

theorem router_of_asksBefore (h : AsksBefore req) (state : σ) :
    router library axum api req state = (axum.preflight req, state) := by
  unfold router
  rw [(axum.router.preflight_iff routes_separate).mpr h]

/-- What no route takes is refused by the filter. -/
theorem surfaced_of_unasked (hnone : ∀ endpoint, ¬Asks req endpoint) (hbefore : ¬AsksBefore req)
    (state : σ) : surfaced library axum served api req state =
      (refused library req.method req.path, state) := by
  have hno : ¬isServed req.method req.path = true := by
    rw [isServed_iff_asks]
    rintro (⟨endpoint, hasks⟩ | h)
    · exact hnone endpoint hasks
    · exact hbefore h
  unfold surfaced serveOnlyTheLane
  rw [if_neg hno]

/-- **The surface of a replica.** A request for an endpoint is handled by it and by no other: one
that generates behind the body filter, which refuses it without a trace or hands on a request
with the same head, every other one as it came. A preflight is answered for the paths of the
contract. Every other request is refused, and touches nothing. -/
theorem surfaced_exact (library : Library) (axum : Axum) (served : Surface.ServedModel)
    (api : ApiState σ) (req : Request) (state : σ) :
    (∀ endpoint, Asks req endpoint → ¬endpoint.Generates →
        surfaced library axum served api req state = routed library axum api endpoint req state) ∧
      (∀ endpoint, Asks req endpoint → endpoint.Generates →
        (∃ refusal, Surface.pinGenerationToTheServedModel library.toParser served req =
            .refused refusal ∧
          surfaced library axum served api req state = (refusalResponse library refusal, state)) ∨
        ∃ req', Surface.pinGenerationToTheServedModel library.toParser served req =
            .forwarded req' ∧ req'.method = req.method ∧ req'.path = req.path ∧
          surfaced library axum served api req state =
            routed library axum api endpoint req' state) ∧
      (AsksBefore req → surfaced library axum served api req state = (axum.preflight req, state)) ∧
      ((∀ endpoint, ¬Asks req endpoint) → ¬AsksBefore req →
        surfaced library axum served api req state =
          (refused library req.method req.path, state)) := by
  -- what the filter lets through is what is asked for, at an endpoint or before it
  have hserved : ∀ answer, isServed req.method req.path = true →
      pinned library served (router library axum api) req state = answer →
        surfaced library axum served api req state = answer := by
    intro answer hserved hpinned
    unfold surfaced serveOnlyTheLane
    rw [if_pos hserved]
    exact hpinned
  refine ⟨fun endpoint hasks hquiet => ?_, fun endpoint hasks hgenerates => ?_, fun hbefore => ?_,
    fun hnone hbefore => ?_⟩
  · refine hserved _ (isServed_iff_asks.mpr (.inl ⟨endpoint, hasks⟩)) ?_
    unfold pinned
    rw [pin_of_not_generation (mt (generates_iff hasks).mpr hquiet)]
    exact router_of_asks hasks state
  · have hlet := isServed_iff_asks.mpr (.inl ⟨endpoint, hasks⟩)
    rcases hpin : Surface.pinGenerationToTheServedModel library.toParser served req with
      req' | refusal
    · obtain ⟨hmethod, hpath⟩ := pin_keeps hpin
      refine .inr ⟨req', rfl, hmethod, hpath, hserved _ hlet ?_⟩
      unfold pinned
      rw [hpin]
      refine router_of_asks ?_ state
      unfold Asks
      rw [hmethod, hpath]
      exact hasks
    · refine .inl ⟨refusal, rfl, hserved _ hlet ?_⟩
      unfold pinned
      rw [hpin]
  · refine hserved _ (isServed_iff_asks.mpr (.inr hbefore)) ?_
    unfold pinned
    have hnot : ¬(req.method = "POST" ∧ Surface.isGenerationPath req.path = true) := by
      rw [hbefore.1]
      exact fun h => absurd h.1 (by decide)
    rw [pin_of_not_generation hnot]
    exact router_of_asksBefore hbefore state
  · exact surfaced_of_unasked hnone hbefore state

end Surface

end CamelidEnterprise.Server

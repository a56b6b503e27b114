import CamelidEnterprise.Foundation.Http
import CamelidEnterprise.Foundation.Utf8
import Mathlib.Data.List.Forall2

/-!
# Routes and the services behind them

A path is the list of its segments, and a pattern takes it segment by segment: a segment
that starts with a colon takes any one that is not empty, every other one takes itself.
`Matcher` is a router's own matching, of which patterns of these two kinds are known.

`Apart` patterns take no common path, so that among pairwise apart routes it does not
matter in which order they are tried (`find?_of_mem`). `Router` is a router library by its
laws, and `Router.inOrder` has them for any `Matcher`.

A `Service` answers a request and changes a state; what a middleware passes on or holds
back shows in whether the state was touched.
-/

namespace Foundation.Http

-- ---------------------------------------------------------------------------
-- Patterns
-- ---------------------------------------------------------------------------

/-- The pieces of a path between its slashes. -/
def segments (path : List Char) : List (List Char) := path.splitOn '/'

/-- A segment of a pattern takes a segment of a path. -/
def Takes : List Char → List Char → Prop
  | ':' :: _, actual => actual ≠ []
  | expected, actual => expected = actual

/-- A pattern takes a path. -/
def Fits (pattern path : List Char) : Prop := List.Forall₂ Takes (segments pattern) (segments path)

/-- A segment that is written out, or the name of a parameter. -/
def PlainSegment (segment : List Char) : Prop :=
  (':' ∉ segment ∧ '*' ∉ segment) ∨
    (segment.head? = some ':' ∧ 1 < segment.length ∧ ':' ∉ segment.tail ∧ '*' ∉ segment.tail)

instance (segment : List Char) : Decidable (PlainSegment segment) :=
  inferInstanceAs (Decidable (_ ∨ _ ∧ _))

/-- A pattern without wildcards of other kinds. -/
def PlainPattern (pattern : List Char) : Prop := ∀ segment ∈ segments pattern, PlainSegment segment

instance (pattern : List Char) : Decidable (PlainPattern pattern) :=
  inferInstanceAs (Decidable (∀ segment ∈ segments pattern, PlainSegment segment))

/-- The matching of a router. -/
structure Matcher where
  fits : List Char → List Char → Bool
  fits_iff : ∀ {pattern}, PlainPattern pattern → ∀ path, fits pattern path = true ↔ Fits pattern path

/-- Two lists of segments that no path fits both of. -/
def apartSegments : List (List Char) → List (List Char) → Bool
  | [], [] => false
  | a :: as, b :: bs =>
    (a.head? != some ':' && b.head? != some ':' && a != b) || apartSegments as bs
  | _, _ => true

/-- Two patterns that take no common path. -/
def Apart (pattern other : List Char) : Prop :=
  apartSegments (segments pattern) (segments other) = true

instance (pattern other : List Char) : Decidable (Apart pattern other) :=
  inferInstanceAs (Decidable (_ = true))

theorem takes_of_head_ne {expected actual : List Char} (h : expected.head? ≠ some ':') :
    Takes expected actual ↔ expected = actual := by
  cases expected with
  | nil => rfl
  | cons c cs =>
    unfold Takes
    split
    · rename_i hcolon
      obtain ⟨rfl, -⟩ := List.cons.inj hcolon
      exact absurd rfl h
    · rfl

theorem not_forall₂_of_apart {as bs cs : List (List Char)} (hapart : apartSegments as bs = true)
    (ha : List.Forall₂ Takes as cs) (hb : List.Forall₂ Takes bs cs) : False := by
  induction ha generalizing bs with
  | nil =>
    cases hb
    exact absurd hapart (by simp [apartSegments])
  | @cons a c as cs hac ha ih =>
    cases hb with
    | @cons b _ bs _ hbc hb =>
      simp only [apartSegments, Bool.or_eq_true, Bool.and_eq_true, bne_iff_ne, ne_eq] at hapart
      rcases hapart with ⟨⟨hliteral, hliteral'⟩, hne⟩ | hapart
      · exact hne (((takes_of_head_ne hliteral).mp hac).trans
          ((takes_of_head_ne hliteral').mp hbc).symm)
      · exact ih hapart hb

theorem Apart.not_fits {pattern other path : List Char} (h : Apart pattern other)
    (hfits : Fits pattern path) : ¬Fits other path := not_forall₂_of_apart h hfits

-- ---------------------------------------------------------------------------
-- Routes
-- ---------------------------------------------------------------------------

/-- A registered handler of one method. -/
structure Route (H : Type) where
  pattern : List Char
  method : String
  handler : H

/-- A method handler answers its method, and a `HEAD` that asks for what it gets. -/
def answersMethod (declared method : String) : Bool :=
  decide (method = declared) || (decide (declared = "GET") && decide (method = "HEAD"))

/-- What a router with permissive CORS on its routes makes of a request. -/
inductive Dispatch (H : Type)
  | handled (handler : H)
  | preflight
  | methodNotAllowed
  | notFound
deriving DecidableEq, Repr

variable {H : Type}

/-- The route of the path is asked whether it answers the method. -/
def dispatch (matcher : Matcher) (routes : List (Route H)) (method : String) (path : List Char) :
    Dispatch H :=
  match routes.find? fun route => matcher.fits route.pattern path with
  | none => .notFound
  | some route =>
    if method = "OPTIONS" then .preflight
    else if answersMethod route.method method then .handled route.handler
    else .methodNotAllowed

/-- Routes of which no two take a common path. -/
structure Separate (routes : List (Route H)) : Prop where
  plain : ∀ route ∈ routes, PlainPattern route.pattern
  apart : routes.Pairwise fun route other => Apart route.pattern other.pattern

/-- Among separate routes the one of a path is found wherever it stands. -/
theorem find?_of_mem {matcher : Matcher} {routes : List (Route H)} (hroutes : Separate routes)
    {route : Route H} (hmem : route ∈ routes) {path : List Char} (hfits : Fits route.pattern path) :
    routes.find? (fun route => matcher.fits route.pattern path) = some route := by
  obtain ⟨hplain, hapart⟩ := hroutes
  induction routes with
  | nil => exact absurd hmem List.not_mem_nil
  | cons first rest ih =>
    obtain ⟨hfirst, hrest⟩ := List.pairwise_cons.mp hapart
    rcases List.mem_cons.mp hmem with rfl | hlater
    · exact List.find?_cons_of_pos ((matcher.fits_iff (hplain _ List.mem_cons_self) path).mpr hfits)
    · have hno : ¬matcher.fits first.pattern path = true := fun h =>
        (hfirst route hlater).not_fits
          ((matcher.fits_iff (hplain _ List.mem_cons_self) path).mp h) hfits
      rw [List.find?_cons_of_neg (p := fun route : Route H => matcher.fits route.pattern path) hno]
      exact ih hlater (fun r hr => hplain r (List.mem_cons_of_mem _ hr)) hrest

/-- A request is handled exactly by the route that takes its path, if that answers its method. -/
theorem dispatch_eq_handled_iff {matcher : Matcher} {routes : List (Route H)}
    (hroutes : Separate routes) {method : String} {path : List Char} {handler : H} :
    dispatch matcher routes method path = .handled handler ↔
      method ≠ "OPTIONS" ∧ ∃ route ∈ routes, Fits route.pattern path ∧
        answersMethod route.method method = true ∧ route.handler = handler := by
  unfold dispatch
  constructor
  · intro h
    split at h
    · exact absurd h (by simp)
    · rename_i route hfound
      have hmem := List.mem_of_find?_eq_some hfound
      have hfits := (matcher.fits_iff (hroutes.plain route hmem) path).mp
        (List.find?_some (p := fun route : Route H => matcher.fits route.pattern path) hfound)
      split at h
      · exact absurd h (by simp)
      · rename_i hmethod
        split at h
        · rename_i hanswers
          exact ⟨hmethod, route, hmem, hfits, hanswers, Dispatch.handled.inj h⟩
        · exact absurd h (by simp)
  · rintro ⟨hmethod, route, hmem, hfits, hanswers, rfl⟩
    rw [find?_of_mem hroutes hmem hfits]
    dsimp only
    rw [if_neg hmethod, if_pos hanswers]

theorem dispatch_eq_preflight_iff {matcher : Matcher} {routes : List (Route H)}
    (hroutes : Separate routes) {method : String} {path : List Char} :
    dispatch matcher routes method path = .preflight ↔
      method = "OPTIONS" ∧ ∃ route ∈ routes, Fits route.pattern path := by
  unfold dispatch
  constructor
  · intro h
    split at h
    · exact absurd h (by simp)
    · rename_i route hfound
      have hmem := List.mem_of_find?_eq_some hfound
      have hfits := (matcher.fits_iff (hroutes.plain route hmem) path).mp
        (List.find?_some (p := fun route : Route H => matcher.fits route.pattern path) hfound)
      split at h
      · rename_i hmethod
        exact ⟨hmethod, route, hmem, hfits⟩
      · split at h
        · exact absurd h (by simp)
        · exact absurd h (by simp)
  · rintro ⟨hmethod, route, hmem, hfits⟩
    rw [find?_of_mem hroutes hmem hfits]
    dsimp only
    rw [if_pos hmethod]

/-- A router library. Of what it makes of a request is known that the route which takes the path
decides, among separate routes: a preflight before any handler, a handler if it answers the
method. -/
structure Router where
  dispatch : ∀ {H : Type}, List (Route H) → String → List Char → Dispatch H
  handled_iff : ∀ {H : Type} {routes : List (Route H)}, Separate routes →
    ∀ {method : String} {path : List Char} {handler : H},
      dispatch routes method path = .handled handler ↔
        method ≠ "OPTIONS" ∧ ∃ route ∈ routes, Fits route.pattern path ∧
          answersMethod route.method method = true ∧ route.handler = handler
  preflight_iff : ∀ {H : Type} {routes : List (Route H)}, Separate routes →
    ∀ {method : String} {path : List Char}, dispatch routes method path = .preflight ↔
      method = "OPTIONS" ∧ ∃ route ∈ routes, Fits route.pattern path

/-- One that tries its routes in their order. -/
def Router.inOrder (matcher : Matcher) : Router where
  dispatch := Http.dispatch matcher
  handled_iff := dispatch_eq_handled_iff
  preflight_iff := dispatch_eq_preflight_iff

-- ---------------------------------------------------------------------------
-- Header values
-- ---------------------------------------------------------------------------

/-- A character that may stand in a header value and is read from it. -/
def Visible (c : Char) : Prop := 32 ≤ c.toNat ∧ c.toNat < 127

instance (c : Char) : Decidable (Visible c) := inferInstanceAs (Decidable (_ ∧ _))

theorem Visible.toNat_ofNat {c : Char} (h : Visible c) : (UInt8.ofNat c.toNat).toNat = c.toNat := by
  have hhigh := h.2
  rw [UInt8.toNat_ofNat']
  omega

/-- A text of visible characters has a byte for each. -/
theorem encode_visible {text : List Char} (h : ∀ c ∈ text, Visible c) :
    Utf8.encode text = text.map fun c => UInt8.ofNat c.toNat := by
  induction text with
  | nil => rfl
  | cons c cs ih =>
    have hhigh : c.val.toNat < 127 := (h c List.mem_cons_self).2
    rw [Utf8.encode_cons, ih fun d hd => h d (List.mem_cons_of_mem _ hd)]
    unfold String.utf8EncodeChar
    dsimp only
    rw [if_pos (by omega)]
    rfl

/-- It is read as it was written. -/
theorem toStr_encode {text : List Char} (h : ∀ c ∈ text, Visible c) :
    toStr (Utf8.encode text) = some text := by
  unfold toStr
  rw [encode_visible h, if_pos]
  · rw [List.map_map, Option.some.injEq]
    refine (List.map_congr_left fun c hc => ?_).trans (List.map_id text)
    rw [Function.comp_apply, (h c hc).toNat_ofNat]
    exact Char.ofNat_toNat c
  · rw [List.all_map, List.all_eq_true]
    intro c hc
    obtain ⟨hlow, hhigh⟩ := h c hc
    simp only [Function.comp_apply, Bool.or_eq_true, Bool.and_eq_true, decide_eq_true_eq,
      UInt8.le_iff_toNat_le, UInt8.lt_iff_toNat_lt, (h c hc).toNat_ofNat, UInt8.reduceToNat]
    exact .inr ⟨hlow, hhigh⟩

-- ---------------------------------------------------------------------------
-- Services
-- ---------------------------------------------------------------------------

/-- A response, with a body that is still to be read. -/
structure Response where
  status : Nat
  headers : HeaderMap
  body : Body
deriving DecidableEq, Repr

/-- What answers a request, over a state of its own. -/
abbrev Service (σ : Type) := Request → σ → Response × σ

/-- What comes of a header that is taken out. -/
def HeaderMap.remove (headers : HeaderMap) (name : String) : HeaderMap :=
  headers.filter fun header => header.1 ≠ name

theorem HeaderMap.find?_filter (headers : HeaderMap) (name other : String) :
    (headers.filter fun header => header.1 ≠ name).find? (fun header => header.1 = other) =
      if name = other then none else headers.find? fun header => header.1 = other := by
  induction headers with
  | nil => simp
  | cons header headers ih =>
    by_cases hname : header.1 = name
    · rw [List.filter_cons_of_neg (by simpa using hname), ih]
      by_cases hother : name = other
      · simp [hother]
      · rw [if_neg hother, if_neg hother, List.find?_cons_of_neg]
        simpa [hname] using hother
    · rw [List.filter_cons_of_pos (by simpa using hname)]
      by_cases hhere : header.1 = other
      · have hne : name ≠ other := fun h => hname (hhere.trans h.symm)
        rw [if_neg hne, List.find?_cons_of_pos (by simpa using hhere),
          List.find?_cons_of_pos (by simpa using hhere)]
      · rw [List.find?_cons_of_neg (by simpa using hhere), ih]
        by_cases hother : name = other
        · simp [hother]
        · rw [if_neg hother, if_neg hother, List.find?_cons_of_neg (by simpa using hhere)]

@[simp] theorem HeaderMap.get_insert (headers : HeaderMap) (name other : String)
    (value : List UInt8) : (headers.insert name value).get other =
      if name = other then some value else headers.get other := by
  unfold HeaderMap.get HeaderMap.insert
  rw [List.find?_append, HeaderMap.find?_filter]
  by_cases hother : name = other
  · simp [hother]
  · simp [hother]

@[simp] theorem HeaderMap.get_remove (headers : HeaderMap) (name other : String) :
    (headers.remove name).get other = if name = other then none else headers.get other := by
  unfold HeaderMap.get HeaderMap.remove
  rw [HeaderMap.find?_filter]
  by_cases hother : name = other
  · simp [hother]
  · simp [hother]

end Foundation.Http

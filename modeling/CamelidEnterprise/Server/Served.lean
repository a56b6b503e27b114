import CamelidEnterprise.Server.Attribution
import CamelidEnterprise.Server.ContractAgree

/-!
# Camelid Enterprise — every response says who answered

`replica_router` puts attribution around the filters, so a refusal is stamped like an answer.
Stamping replaces what a handler may have set under the same names and leaves every other
header alone; the fields go into the JSON of a completion, over fields of the same names, and
leave the others alone, and what cannot be read whole is replaced by an error that is stamped
too.

Key results: `attributeLayer_answered`, for whatever stands inside, and `replica_attributed`.
-/

namespace CamelidEnterprise.Server

open Foundation Foundation.Json Foundation.Http Foundation.Utf8

-- ---------------------------------------------------------------------------
-- Stamps
-- ---------------------------------------------------------------------------

section Stamp

variable {ctx : Attribution} {headers : HeaderMap}

theorem get_insertText (headers : HeaderMap) (name other : String) (text : Str) :
    (Attribution.insertText headers name text).get other =
      if name = other then (headerValue text).or (headers.get other) else headers.get other := by
  unfold Attribution.insertText
  by_cases hname : name = other
  · rcases headerValue text with _ | value
    · simp [hname]
    · simp [hname]
  · rcases headerValue text with _ | value
    · simp [hname]
    · simp [hname]

/-- Headers under different names: each has its own value, and others are left alone. -/
theorem get_foldl_insertText {fields : List (String × Str)}
    (hnodup : (fields.map Prod.fst).Nodup) (headers : HeaderMap) :
    (∀ field ∈ fields,
        (fields.foldl (fun headers field => Attribution.insertText headers field.1 field.2)
          headers).get field.1 = (headerValue field.2).or (headers.get field.1)) ∧
      ∀ name, name ∉ fields.map Prod.fst →
        (fields.foldl (fun headers field => Attribution.insertText headers field.1 field.2)
          headers).get name = headers.get name := by
  induction fields generalizing headers with
  | nil => exact ⟨fun field h => absurd h List.not_mem_nil, fun name _ => rfl⟩
  | cons first fields ih =>
    rw [List.map_cons, List.nodup_cons] at hnodup
    obtain ⟨hthese, hothers⟩ := ih hnodup.2 (Attribution.insertText headers first.1 first.2)
    rw [List.foldl_cons]
    constructor
    · intro field hfield
      rcases List.mem_cons.mp hfield with rfl | hfield
      · rw [hothers _ hnodup.1, get_insertText, if_pos rfl]
      · have hne : first.1 ≠ field.1 := fun h =>
          hnodup.1 (h ▸ List.mem_map_of_mem hfield)
        rw [hthese field hfield, get_insertText, if_neg hne]
    · intro name hname
      rw [List.map_cons, List.mem_cons, not_or] at hname
      rw [hothers name hname.2, get_insertText, if_neg (Ne.symm hname.1)]

/-- The names of the headers are different. -/
theorem headerFields_nodup (ctx : Attribution) : (ctx.headerFields.map Prod.fst).Nodup := by
  show ["x-camelid-lane", "x-camelid-config-sha256", "x-camelid-admission-sha256",
    "x-camelid-posture", "x-camelid-engine-sha256", "x-camelid-host", "x-camelid-model-sha256",
    "x-camelid-worker-threads"].Nodup
  decide

/-- Every header but the host's has a value whatever it says. -/
theorem headerFields_valid (ctx : Attribution) {field : String × Str}
    (hfield : field ∈ ctx.headerFields) (hhost : field.1 ≠ "x-camelid-host") :
    headerValue field.2 = some (encode field.2) := by
  unfold Attribution.headerFields at hfield
  simp only [List.mem_cons, List.not_mem_nil, or_false] at hfield
  rcases hfield with rfl | rfl | rfl | rfl | rfl | rfl | rfl | rfl
  · exact ctx.lane_static
  · exact ctx.configSha256.headerValue_short
  · exact ctx.admissionSha256.headerValue_short
  · show headerValue Lane.executionPosture.toList = some (encode Lane.executionPosture.toList)
    decide +kernel
  · exact ctx.engineSha256.headerValue_short
  · exact absurd rfl hhost
  · exact ctx.modelSha256.headerValue_short
  · exact headerValue_decimalText ctx.workerThreads

/-- The headers say what this replica is. -/
structure Stamped (ctx : Attribution) (headers : HeaderMap) : Prop where
  named : ∀ field ∈ ctx.headerFields, field.1 ≠ "x-camelid-host" →
    headers.get field.1 = some (encode field.2)
  host : ∀ value, headerValue ctx.host = some value → headers.get "x-camelid-host" = some value

theorem stamp_stamped (ctx : Attribution) (headers : HeaderMap) : Stamped ctx (ctx.stamp headers) := by
  obtain ⟨hthese, -⟩ := get_foldl_insertText (headerFields_nodup ctx) headers
  constructor
  · intro field hfield hhost
    refine (hthese field hfield).trans ?_
    rw [headerFields_valid ctx hfield hhost]
    rfl
  · intro value hvalue
    refine (hthese ("x-camelid-host", ctx.host) (by simp [Attribution.headerFields])).trans ?_
    rw [hvalue]
    rfl

theorem get_stamp_of_not_mem {name : String} (hname : name ∉ ctx.headerFields.map Prod.fst) :
    (ctx.stamp headers).get name = headers.get name :=
  (get_foldl_insertText (headerFields_nodup ctx) headers).2 name hname

theorem Stamped.remove {name : String} (h : Stamped ctx headers)
    (hname : name ∉ ctx.headerFields.map Prod.fst) : Stamped ctx (headers.remove name) := by
  constructor
  · intro field hfield hhost
    have hne : name ≠ field.1 := fun hsame => hname (hsame ▸ List.mem_map_of_mem hfield)
    rw [HeaderMap.get_remove, if_neg hne]
    exact h.named field hfield hhost
  · intro value hvalue
    have hne : name ≠ "x-camelid-host" := fun hsame => hname (hsame ▸ List.mem_map.mpr
      ⟨("x-camelid-host", ctx.host), by simp [Attribution.headerFields], rfl⟩)
    rw [HeaderMap.get_remove, if_neg hne]
    exact h.host value hvalue

end Stamp

-- ---------------------------------------------------------------------------
-- Fields
-- ---------------------------------------------------------------------------

theorem bodyFields_nodup (ctx : Attribution) : (ctx.bodyFields.map Prod.fst).Nodup := by
  show ["camelid_lane".toList, "camelid_config_sha256".toList, "camelid_admission_sha256".toList,
    "camelid_posture".toList, "camelid_engine_sha256".toList, "camelid_model_sha256".toList,
    "camelid_host".toList, "camelid_worker_threads".toList].Nodup
  decide +kernel

/-- A text says what this replica is, over what it said before: what the library writes for
such an object, and reads in what it wrote. -/
def Injected (library : Library) (ctx : Attribution) (object : List (Text × Value))
    (bytes : List UInt8) : Prop :=
  ∃ object' members, library.toVec (.Object object') = some bytes ∧
    library.document bytes = some (.object members) ∧
    Written (.Object object') (.object members) ∧
    (∀ field ∈ ctx.bodyFields, Map.get field.1 object' = some field.2) ∧
    ∀ name, name ∉ ctx.bodyFields.map Prod.fst → Map.get name object' = Map.get name object

theorem injected_of_toVec {library : Library} {ctx : Attribution} {object : List (Text × Value)}
    {bytes : List UInt8} (h : library.toVec (ctx.inject (.Object object)) = some bytes) :
    Injected library ctx object bytes := by
  obtain ⟨doc, hdoc, hwritten⟩ := library.document_toVec h
  obtain ⟨hthese, hothers⟩ := Map.get_insertAll (bodyFields_nodup ctx) object
  cases doc with
  | object members => exact ⟨_, members, h, hdoc, hwritten, hthese, hothers⟩
  | _ => cases hwritten

-- ---------------------------------------------------------------------------
-- Responses
-- ---------------------------------------------------------------------------

/-- A completion in JSON, whose body is looked at. -/
def LookedAt (req : Request) (inner : Response) : Prop :=
  isCompletionPath req.path = true ∧ isJsonResponse inner.headers = true

/-- The headers that attribution does not set are those of the response inside it. -/
def Unstamped (ctx : Attribution) (inner : Response) (headers : HeaderMap) : Prop :=
  ∀ name, name ∉ ctx.headerFields.map Prod.fst → headers.get name = inner.headers.get name

/-- What attribution makes of the response inside it. -/
inductive Answered (library : Library) (ctx : Attribution) (req : Request) (inner : Response) :
    Response → Prop
  /-- a response that is no completion, or is streamed -/
  | passed {headers : HeaderMap} (hnot : ¬LookedAt req inner) (hheaders : Unstamped ctx inner headers) :
      Answered library ctx req inner { inner with headers }
  /-- an object gets the fields, and loses the length it had -/
  | injected {headers : HeaderMap} {bytes written : List UInt8} {object : List (Text × Value)}
      (hlooked : LookedAt req inner) (hread : toBytes inner.body attributionBodyLimit = .ok bytes)
      (hobject : library.fromSlice bytes = some (.Object object))
      (hinjected : Injected library ctx object written)
      (hheaders : Unstamped ctx { inner with headers := inner.headers.remove "content-length" } headers) :
      Answered library ctx req inner { inner with headers, body := .whole written }
  /-- what is no object is written again, or stays as it is where that cannot be done -/
  | reread {headers : HeaderMap} {bytes written : List UInt8}
      (hlooked : LookedAt req inner) (hread : toBytes inner.body attributionBodyLimit = .ok bytes)
      (hother : ∀ object, library.fromSlice bytes ≠ some (.Object object))
      (hwritten : written = ((library.fromSlice bytes).bind library.toVec).getD bytes)
      (hheaders : Unstamped ctx { inner with headers := inner.headers.remove "content-length" } headers) :
      Answered library ctx req inner { inner with headers, body := .whole written }
  /-- an object that the library does not write again stays as it is -/
  | unwritten {headers : HeaderMap} {bytes : List UInt8} {object : List (Text × Value)}
      (hlooked : LookedAt req inner) (hread : toBytes inner.body attributionBodyLimit = .ok bytes)
      (hobject : library.fromSlice bytes = some (.Object object))
      (hvec : library.toVec (ctx.inject (.Object object)) = none)
      (hheaders : Unstamped ctx { inner with headers := inner.headers.remove "content-length" } headers) :
      Answered library ctx req inner { inner with headers, body := .whole bytes }
  /-- what cannot be read whole is not sent -/
  | withheld {error : BodyError} (hlooked : LookedAt req inner)
      (hread : toBytes inner.body attributionBodyLimit = .error error) :
      Answered library ctx req inner (attributionFailed ctx)

section Layer

variable {library : Library} {ctx : Attribution} {req : Request} {inner : Response}

theorem not_stamped_contentType : "content-type" ∉ ctx.headerFields.map Prod.fst := by
  show "content-type" ∉ ["x-camelid-lane", "x-camelid-config-sha256", "x-camelid-admission-sha256",
    "x-camelid-posture", "x-camelid-engine-sha256", "x-camelid-host", "x-camelid-model-sha256",
    "x-camelid-worker-threads"]
  decide

theorem not_stamped_contentLength : "content-length" ∉ ctx.headerFields.map Prod.fst := by
  show "content-length" ∉ ["x-camelid-lane", "x-camelid-config-sha256",
    "x-camelid-admission-sha256", "x-camelid-posture", "x-camelid-engine-sha256", "x-camelid-host",
    "x-camelid-model-sha256", "x-camelid-worker-threads"]
  decide

/-- Stamping does not change whether a response says it is JSON. -/
theorem isJsonResponse_stamp (headers : HeaderMap) :
    isJsonResponse (ctx.stamp headers) = isJsonResponse headers := by
  unfold isJsonResponse
  rw [get_stamp_of_not_mem not_stamped_contentType]

theorem unstamped_stamp (inner : Response) : Unstamped ctx inner (ctx.stamp inner.headers) :=
  fun _ hname => get_stamp_of_not_mem hname

theorem unstamped_remove (inner : Response) :
    Unstamped ctx { inner with headers := inner.headers.remove "content-length" }
      ((ctx.stamp inner.headers).remove "content-length") := by
  intro name hname
  dsimp only
  rw [HeaderMap.get_remove, HeaderMap.get_remove, get_stamp_of_not_mem hname]

/-- The body of a completion. -/
theorem attributed_answered (hlooked : LookedAt req inner) :
    Stamped ctx (attributed library ctx { inner with headers := ctx.stamp inner.headers }).headers ∧
      Answered library ctx req inner
        (attributed library ctx { inner with headers := ctx.stamp inner.headers }) := by
  have hstamped : Stamped ctx ((ctx.stamp inner.headers).remove "content-length") :=
    (stamp_stamped ctx inner.headers).remove not_stamped_contentLength
  unfold attributed
  dsimp only
  rcases hread : toBytes inner.body attributionBodyLimit with error | bytes
  · exact ⟨stamp_stamped ctx _, .withheld hlooked hread⟩
  · refine ⟨hstamped, ?_⟩
    dsimp only
    rcases hvalue : library.fromSlice bytes with _ | value
    · exact .reread hlooked hread (by simp [hvalue]) (by rw [hvalue]; rfl) (unstamped_remove inner)
    · dsimp only
      rcases hvec : library.toVec (ctx.inject value) with _ | written
      · rw [Option.getD_none]
        cases value with
        | Object object => exact .unwritten hlooked hread hvalue hvec (unstamped_remove inner)
        | _ =>
          refine .reread hlooked hread (by simp [hvalue]) ?_ (unstamped_remove inner)
          rw [hvalue]
          exact (congrArg (Option.getD · bytes) hvec).symm
      · rw [Option.getD_some]
        cases value with
        | Object object =>
          exact .injected hlooked hread hvalue (injected_of_toVec hvec) (unstamped_remove inner)
        | _ =>
          refine .reread hlooked hread (by simp [hvalue]) ?_ (unstamped_remove inner)
          rw [hvalue]
          exact (congrArg (Option.getD · bytes) hvec).symm

/-- **Attribution.** Whatever answers inside it, the state is the one it left, the response says
what produced it, and is the one that was given but for that; and the receipt, where one is kept,
is of the status that is sent and of the identifier that came with the request. -/
theorem attributeLayer_answered (library : Library) (ctx : Attribution) (ts : Nat) {σ : Type}
    (next : Service σ) (req : Request) (state : σ) :
    (attributeLayer library ctx ts next req state).2 = (next req state).2 ∧
      Stamped ctx (attributeLayer library ctx ts next req state).1.1.headers ∧
      Answered library ctx req (next req state).1 (attributeLayer library ctx ts next req state).1.1 ∧
      (attributeLayer library ctx ts next req state).1.2 =
        if ctx.receipts then
          some (ctx.receipt ⟨req.method, req.path,
            (attributeLayer library ctx ts next req state).1.1.status, ts,
            (req.headers.get "x-camelid-request-id").bind toStr⟩)
        else none := by
  refine ⟨rfl, ?_, ?_, rfl⟩
  · unfold attributeLayer
    dsimp only
    split
    · rename_i hlooked
      rw [isJsonResponse_stamp, Bool.and_eq_true] at hlooked
      exact (attributed_answered hlooked).1
    · exact stamp_stamped ctx _
  · unfold attributeLayer
    dsimp only
    split
    · rename_i hlooked
      rw [isJsonResponse_stamp, Bool.and_eq_true] at hlooked
      exact (attributed_answered hlooked).2
    · rename_i hnot
      rw [isJsonResponse_stamp, Bool.and_eq_true] at hnot
      exact .passed hnot (unstamped_stamp _)

end Layer

/-- The layers of `replica_router`. -/
def replica (library : Library) (axum : Axum) (served : Surface.ServedModel) (ctx : Attribution)
    (ts : Nat) {σ : Type} (api : ApiState σ) (req : Request) (state : σ) :
    (Response × Option Value) × σ :=
  attributeLayer library ctx ts (surfaced library axum served api) req state

/-- **A replica says who answered.** Every response of it carries its stamps, a refusal of the
filters too, and is otherwise the response inside: but that a completion in JSON has the fields
in its object, over those of the same names, and that one which cannot be read whole is replaced.
The receipt is of the status that is sent. A request no route takes changes nothing. -/
theorem replica_attributed (library : Library) (axum : Axum) (served : Surface.ServedModel)
    (ctx : Attribution) (ts : Nat) {σ : Type} (api : ApiState σ) (req : Request) (state : σ) :
    Stamped ctx (replica library axum served ctx ts api req state).1.1.headers ∧
      Answered library ctx req (surfaced library axum served api req state).1
        (replica library axum served ctx ts api req state).1.1 ∧
      (replica library axum served ctx ts api req state).1.2 =
        (if ctx.receipts then
          some (ctx.receipt ⟨req.method, req.path,
            (replica library axum served ctx ts api req state).1.1.status, ts,
            (req.headers.get "x-camelid-request-id").bind toStr⟩)
        else none) ∧
      (replica library axum served ctx ts api req state).2 =
        (surfaced library axum served api req state).2 ∧
      ((∀ endpoint, ¬Asks req endpoint) → ¬AsksBefore req →
        (replica library axum served ctx ts api req state).2 = state ∧
          Answered library ctx req (refused library req.method req.path)
            (replica library axum served ctx ts api req state).1.1) := by
  obtain ⟨hstate, hstamped, hanswered, hreceipt⟩ :=
    attributeLayer_answered library ctx ts (surfaced library axum served api) req state
  refine ⟨hstamped, hanswered, hreceipt, hstate, fun hnone hbefore => ?_⟩
  have hrefused : surfaced library axum served api req state =
      (refused library req.method req.path, state) := surfaced_of_unasked hnone hbefore state
  rw [hrefused] at hstate hanswered
  exact ⟨hstate, hanswered⟩

end CamelidEnterprise.Server

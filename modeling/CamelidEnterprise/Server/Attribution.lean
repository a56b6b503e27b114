import CamelidEnterprise.Server.Contract
import CamelidEnterprise.Server.Lane

/-!
# Camelid Enterprise — attribution

`crates/server/src/attribution.rs`: the outermost layer of a replica. It stamps every response
with what produced it, puts the same facts into the bodies of completions, and hands a receipt
of the request to a log. A digest is sixty-four hexadecimal digits by construction (`Digest`),
so that its short form and its header value always exist; a host summary may be no header value,
and then its header is left out.
-/

namespace CamelidEnterprise.Server

open Foundation Foundation.Json Foundation.Http Foundation.Utf8

-- ---------------------------------------------------------------------------
-- Identities
-- ---------------------------------------------------------------------------

/-- `BODY_LIMIT` -/
def attributionBodyLimit : Nat := 64 * 1024 * 1024

/-- `SHORT_HEX` -/
def shortHex : Nat := 12

/-- A digest as it is printed. -/
structure Digest where
  text : Str
  length_eq : text.length = 64
  hex : ∀ c ∈ text, c ∈ "0123456789abcdef".toList

/-- `short` -/
def Digest.short (digest : Digest) : Str := digest.text.take shortHex

/-- `HeaderValue::from_str` -/
def headerValue (text : Str) : Option (List UInt8) :=
  if (encode text).all fun byte => byte = 9 || (32 ≤ byte && byte ≠ 127) then some (encode text)
  else none

/-- A number as `to_string` prints it. -/
def decimalText (n : Nat) : Str := Nat.toDigits 10 n

/-- `Attribution`, with the digest of the engine that the build writes. -/
structure Attribution where
  lane : String
  configSha256 : Digest
  admissionSha256 : Digest
  engineSha256 : Digest
  modelSha256 : Digest
  host : Str
  workerThreads : Nat
  receipts : Bool
  /-- the name of a lane is a static header value -/
  lane_static : headerValue lane.toList = some (encode lane.toList)

namespace Attribution

/-- A header that is left out where its text is no header value. -/
def insertText (headers : HeaderMap) (name : String) (text : Str) : HeaderMap :=
  match headerValue text with
  | some value => headers.insert name value
  | none => headers

/-- The headers of `stamp`, in the order they are inserted. -/
def headerFields (ctx : Attribution) : List (String × Str) :=
  [("x-camelid-lane", ctx.lane.toList), ("x-camelid-config-sha256", ctx.configSha256.short),
    ("x-camelid-admission-sha256", ctx.admissionSha256.short),
    ("x-camelid-posture", Lane.executionPosture.toList),
    ("x-camelid-engine-sha256", ctx.engineSha256.short), ("x-camelid-host", ctx.host),
    ("x-camelid-model-sha256", ctx.modelSha256.short),
    ("x-camelid-worker-threads", decimalText ctx.workerThreads)]

/-- `stamp` -/
def stamp (ctx : Attribution) (headers : HeaderMap) : HeaderMap :=
  ctx.headerFields.foldl (fun headers field => insertText headers field.1 field.2) headers

/-- The fields of `inject`, in the order they are inserted. -/
def bodyFields (ctx : Attribution) : List (Text × Value) :=
  [("camelid_lane".toList, jsonString ctx.lane),
    ("camelid_config_sha256".toList, .String ctx.configSha256.short),
    ("camelid_admission_sha256".toList, .String ctx.admissionSha256.short),
    ("camelid_posture".toList, jsonString Lane.executionPosture),
    ("camelid_engine_sha256".toList, .String ctx.engineSha256.short),
    ("camelid_model_sha256".toList, .String ctx.modelSha256.short),
    ("camelid_host".toList, .String ctx.host),
    ("camelid_worker_threads".toList, jsonNat ctx.workerThreads)]

/-- `inject` -/
def inject (ctx : Attribution) : Value → Value
  | .Object object => .Object (Map.insertAll ctx.bodyFields object)
  | value => value

/-- What a receipt says of a request; the time is the word of a double. -/
structure Seen where
  method : String
  path : String
  status : Nat
  ts : Nat
  requestId : Option Str
deriving DecidableEq, Repr

/-- The fields of a receipt. -/
def receiptFields (ctx : Attribution) (seen : Seen) : List (Text × Value) :=
  [("ts".toList, jsonF64 seen.ts), ("request_id".toList, jsonOption seen.requestId),
    ("method".toList, jsonString seen.method), ("path".toList, jsonString seen.path),
    ("status".toList, jsonNat seen.status), ("lane".toList, jsonString ctx.lane),
    ("config_sha256".toList, .String ctx.configSha256.text),
    ("admission_sha256".toList, .String ctx.admissionSha256.text),
    ("posture".toList, jsonString Lane.executionPosture),
    ("engine_sha256".toList, .String ctx.engineSha256.text),
    ("model_sha256".toList, .String ctx.modelSha256.text), ("host".toList, .String ctx.host),
    ("worker_threads".toList, jsonNat ctx.workerThreads)]

/-- `receipt` -/
def receipt (ctx : Attribution) (seen : Seen) : Value :=
  .Object (Map.insertAll (ctx.receiptFields seen) [])

end Attribution

-- ---------------------------------------------------------------------------
-- The layer
-- ---------------------------------------------------------------------------

/-- `is_completion_path` -/
def isCompletionPath (path : String) : Bool :=
  decide (path = "/v1/chat/completions") || decide (path = "/v1/completions")

/-- A content type that says JSON. -/
def isJsonResponse (headers : HeaderMap) : Bool :=
  match (headers.get "content-type").bind toStr with
  | some text => "application/json".toList.isPrefixOf text
  | none => false

/-- The response in place of one that was not read. -/
def attributionFailed (ctx : Attribution) : Response where
  status := 500
  headers := ctx.stamp
    (HeaderMap.insert [] "content-type" (encode "application/json".toList))
  body := .whole (encode ("\x7b\"error\":\x7b\"message\":\"response exceeded the " ++
    "attribution buffer limit\",\"type\":\"server_error\"\x7d\x7d").toList)

/-- The response of a completion, with the fields in its body. -/
def attributed (library : Library) (ctx : Attribution) (resp : Response) : Response :=
  match toBytes resp.body attributionBodyLimit with
  | .error _ => attributionFailed ctx
  | .ok bytes =>
    let rewritten :=
      match library.fromSlice bytes with
      | some value => (library.toVec (ctx.inject value)).getD bytes
      | none => bytes
    { resp with headers := resp.headers.remove "content-length", body := .whole rewritten }

/-- `attribute`: the response, and the receipt that is handed to the log. -/
def attributeLayer (library : Library) (ctx : Attribution) (ts : Nat) {σ : Type} (next : Service σ)
    (req : Request) (state : σ) : (Response × Option Value) × σ :=
  let requestId := (req.headers.get "x-camelid-request-id").bind toStr
  let answered := next req state
  let stamped := { answered.1 with headers := ctx.stamp answered.1.headers }
  let resp :=
    if isCompletionPath req.path && isJsonResponse stamped.headers then
      attributed library ctx stamped
    else stamped
  let receipt :=
    if ctx.receipts then some (ctx.receipt ⟨req.method, req.path, resp.status, ts, requestId⟩)
    else none
  ((resp, receipt), answered.2)

-- ---------------------------------------------------------------------------
-- Header values
-- ---------------------------------------------------------------------------

theorem headerValue_of_visible {text : Str} (h : ∀ c ∈ text, Visible c) :
    headerValue text = some (encode text) := by
  unfold headerValue
  rw [if_pos]
  rw [encode_visible h, List.all_map, List.all_eq_true]
  intro c hc
  obtain ⟨hlow, hhigh⟩ := h c hc
  simp only [Function.comp_apply, Bool.or_eq_true, Bool.and_eq_true, decide_eq_true_eq, ne_eq,
    UInt8.le_iff_toNat_le, ← UInt8.toNat_inj, (h c hc).toNat_ofNat, UInt8.reduceToNat]
  exact .inr ⟨hlow, by omega⟩

theorem Digest.headerValue_short (digest : Digest) :
    headerValue digest.short = some (encode digest.short) := by
  have hdigits : "0123456789abcdef".toList.all (fun c => decide (Visible c)) := by decide +kernel
  exact headerValue_of_visible fun c hc =>
    of_decide_eq_true (List.all_eq_true.mp hdigits c (digest.hex c (List.mem_of_mem_take hc)))

theorem headerValue_decimalText (n : Nat) :
    headerValue (decimalText n) = some (encode (decimalText n)) := by
  refine headerValue_of_visible fun c hc => ?_
  have hdigit := Nat.isDigit_of_mem_toDigits (b := 10) (by decide) (by decide) hc
  simp only [Char.isDigit, Bool.and_eq_true, decide_eq_true_eq, UInt32.le_iff_toNat_le, ge_iff_le]
    at hdigit
  have hlow : 48 ≤ c.toNat := hdigit.1
  have hhigh : c.toNat ≤ 57 := hdigit.2
  exact ⟨by omega, by omega⟩

end CamelidEnterprise.Server

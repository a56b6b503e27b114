import CamelidEnterprise.Engine.Error
import CamelidEnterprise.Foundation.Headers
import CamelidEnterprise.Foundation.Json
import CamelidEnterprise.Foundation.Lossy
import CamelidEnterprise.Foundation.Machine
import CamelidEnterprise.Foundation.Text

/-!
# Camelid Enterprise — the lane's admission of an environment

`crates/server/src/lane.rs`: a replica starts only in an environment its policy admits,
and only then writes its own vector. The policy claims the names under a prefix and a
few foreign ones, and admits of the first what its rules name. Names are what the
operating system hands over, so they are read lossily, and compared as the platform
compares them.

The tables of a policy are its parameters (`Policy`); the source's own are `lanePolicy`.
The digest library and the pin that the build script writes are parameters too (`Build`).
-/

namespace CamelidEnterprise.Lane

open Foundation Foundation.Utf8

-- ---------------------------------------------------------------------------
-- The tables
-- ---------------------------------------------------------------------------

/-- `EXECUTION_POSTURE` -/
def executionPosture : String := "cpu"

/-- `REFUSED_FOREIGN` -/
def refusedForeign : List (String × String) :=
  [("VECLIB_MAXIMUM_THREADS",
      "sizes Apple vecLib's internal BLAS pool. The engine calls into Accelerate on this " ++
        "platform — cblas_sgemv for dense f32 linear rows above a size floor, and " ++
        "cblas_sgemm from the CPU tensor matmul with no floor and no flag in front of it — " ++
        "and vecLib's documented response to this variable is to change how it blocks and " ++
        "parallelizes those calls, which moves f32 summation order. Nothing this replica " ++
        "publishes reports vecLib's pool width, so a replica running under it looks " ++
        "identical to one that is not"),
    ("RAYON_NUM_THREADS",
      "sizes the process-global data-parallel worker pool, and several engine kernels " ++
        "select a different branch when the resolved width is greater than one. The width it " ++
        "sets is published — x-camelid-worker-threads is read back from the pool, so a " ++
        "replica running under this looks different from one that is not — and it is refused " ++
        "anyway, because this replica declares its width through one documented flag. Use " ++
        "--threads, or CAMELID_ENTERPRISE_THREADS"),
    ("RAYON_RS_NUM_CPUS",
      "the deprecated spelling of RAYON_NUM_THREADS, and a live one at the pinned " ++
        "rayon-core: the pool falls through to it whenever the current name is unset or does " ++
        "not parse as a usize at all. An explicit RAYON_NUM_THREADS=0 is not such a case — " ++
        "it parses, and takes the host default without consulting this name — but on every " ++
        "path that does fall through, this name sizes the same pool by the same rule and " ++
        "reaches the same kernels. Refused for the same reason, and named separately because " ++
        "refusing only the current spelling would leave the refusal bypassable by a synonym " ++
        "this replica never mentions. Use --threads, or CAMELID_ENTERPRISE_THREADS")]

/-- `CANONICAL` -/
def canonical : List (String × String) :=
  [("CAMELID_DETERMINISTIC", "1"),
    ("CAMELID_NO_GPU_SAMPLE", "1"),
    ("CAMELID_METAL_RESIDENT_DECODE", "false"),
    ("CAMELID_METAL_F32Y", "false"),
    ("CAMELID_METAL_WIRE", "false"),
    ("CAMELID_METAL_WIRE_NSG8", "false"),
    ("CAMELID_METAL_ATTN2", "false"),
    ("CAMELID_METAL_RESIDENT_PREFILL", "false"),
    ("CAMELID_METAL_MM", "false"),
    ("CAMELID_METAL_LINEAR", "false"),
    ("CAMELID_METAL_Q8", "false"),
    ("CAMELID_METAL_Q8_RETAINED", "false"),
    ("CAMELID_HYBRID_Q8_RETAINED", "false"),
    ("CAMELID_METAL_NOCOPY", "false")]

/-- `Match`: the whole name, or every name under a prefix. -/
inductive Match
  | Exact (rule : String)
  | Prefix (rule : String)
deriving DecidableEq, Repr

/-- `literal` -/
def Match.literal : Match → String
  | Exact rule => rule
  | Prefix rule => rule

/-- `digest_tag` -/
def Match.digestTag : Match → String
  | Exact _ => "permit_exact="
  | Prefix _ => "permit_prefix="

/-- `is_prefix` -/
def Match.isPrefix : Match → Bool
  | Exact _ => false
  | Prefix _ => true

/-- `Permit` -/
structure Permit where
  rule : Match
  reason : String
deriving DecidableEq, Repr

/-- `PERMITTED` -/
def permitted : List Permit :=
  [⟨.Exact "CAMELID_ENTERPRISE_MODEL",
      "GGUF loaded at startup (--model); the only way to supply a model without argv. It " ++
        "selects the weights, so it moves every token — and neither published digest is " ++
        "taken over the model file, so both stay identical across the swap. Admitted because " ++
        "the loaded file's own SHA-256 is published on every response, as " ++
        "x-camelid-model-sha256, which is what makes the swap visible"⟩,
    ⟨.Exact "CAMELID_ENTERPRISE_ADDR",
      "bind address (--addr); container and orchestrator entrypoints own argv, so this is " ++
        "how they configure it"⟩,
    ⟨.Exact "CAMELID_ENTERPRISE_THREADS",
      "worker-thread count (--threads). Engine kernels select a different branch above " ++
        "width one, and whether that changes any emitted token is not established in either " ++
        "direction; the row is admitted because the width it resolves to is read back from " ++
        "the pool and published on every response, so two replicas started differently are " ++
        "told apart from the outside"⟩,
    ⟨.Exact "CAMELID_ENTERPRISE_MAX_CONCURRENCY",
      "generations run at once (--max-concurrency). Admitted with a claim made, unlike the " ++
        "width above it: every generation owns its decoder and KV cache over read-only " ++
        "weights and is never fused with another, so a request emits the same tokens at any " ++
        "width. It is published on /v1/health as engine_generation_slots and enters neither " ++
        "digest, because two replicas differing only here apply the same configuration " ++
        "vector and would refuse the same environment — they differ in how many clients they " ++
        "serve at once, not in what any one of them gets"⟩,
    ⟨.Exact "CAMELID_ENTERPRISE_TEST_MODEL",
      "local GGUF for this workspace's gated tests; read only under #[cfg(test)] and never " ++
        "on the serving path — permitted so one shell can run both the tests and a replica"⟩]

/-- `ADVISORY` -/
def advisory : List (String × String) :=
  [("CAMELID_RMS_NORM_EPSILON", "overrides a normalization constant in the forward pass"),
    ("CAMELID_ROPE_PAIRING",
      "changes rotary-embedding pairing; takes effect on presence alone, empty value " ++
        "included"),
    ("CAMELID_ROPE_DIRECTION", "changes rotary-embedding direction"),
    ("CAMELID_ROPE_POSITION_MODE", "changes how rotary positions are derived"),
    ("CAMELID_ATTENTION_SCORE_SCALE", "overrides the attention score scale"),
    ("CAMELID_GQA_HEAD_MAPPING", "changes grouped-query head mapping"),
    ("CAMELID_LINEAR_ACCUMULATION", "changes linear-layer accumulation, and so reduction order"),
    ("CAMELID_FFN_GATE_UP_ORDER", "reorders the feed-forward gate/up product"),
    ("CAMELID_SQUARE_LINEAR_LAYOUT", "selects a different square-linear weight layout and kernel"),
    ("CAMELID_OUTPUT_PROJECTION_LAYOUT",
      "selects a different output-projection layout and kernel"),
    ("CAMELID_RECTANGULAR_LINEAR_LAYOUT",
      "selects a different rectangular-linear layout and kernel; the engine also derives " ++
        "per-role names from this one at runtime, which is why no ban list could have " ++
        "covered the family"),
    ("CAMELID_DEBUG_DISABLE_QK_NORM", "disables QK normalization; takes effect on presence alone"),
    ("CAMELID_PARALLEL_LINEAR", "switches linear layers between serial and parallel reduction"),
    ("CAMELID_PROFILE",
      "selects an engine profile, which drives what the planner writes into its own " ++
        "managed keys"),
    ("CAMELID_ZERO_ATTENTION_DELTA",
      "zeroes an attention contribution — a diagnostic, not a serving mode"),
    ("CAMELID_ZERO_FFN_DELTA",
      "zeroes a feed-forward contribution — a diagnostic, not a serving mode"),
    ("CAMELID_PREFILL_THREADS",
      "installs a prefill-specific thread pool no single declared thread count describes"),
    ("CAMELID_DECODE_THREADS",
      "installs a decode-specific thread pool no single declared thread count describes"),
    ("CAMELID_THREADS",
      "engine-owned, and read for its presence rather than its value — setting it changes " ++
        "the engine's phase-threading shape. For this replica's worker count use " ++
        "CAMELID_ENTERPRISE_THREADS"),
    ("CAMELID_PREFILL_CHUNK_TOKENS", "changes prefill batch shape, and so reduction order"),
    ("CAMELID_PREFILL_LAYER_MAJOR_CHUNK_TOKENS",
      "changes layer-major prefill batch shape, and so reduction order"),
    ("CAMELID_MAC_Q8_PREFILL_I8MM",
      "moves a quantized prefill kernel boundary; the engine's planner also writes this " ++
        "key itself at model load"),
    ("CAMELID_MAC_Q8_I8MM_SMALL_M_MAX_ROWS",
      "moves a quantized kernel row threshold, and so which kernel runs"),
    ("CAMELID_X86_Q8_PARALLEL_INPUT_QUANTIZE",
      "parallelizes input quantization, changing reduction order"),
    ("CAMELID_ATTN_COALESCED", "selects a coalesced attention path"),
    ("CAMELID_SPEC_DECODE", "enables speculative decoding, which this lane excludes"),
    ("CAMELID_SPEC_DRAFT_MODEL", "names a speculative draft model; this lane serves one model"),
    ("CAMELID_SPEC_DRAFT_TOKENS", "sizes speculative drafting, which this lane excludes"),
    ("CAMELID_QUEUE_DEPTH", "resizes the engine queue, changing which requests fail closed"),
    ("CAMELID_GENERATION_TIMEOUT_MS",
      "changes the per-generation wall-clock ceiling, and at 0 removes it"),
    ("CAMELID_APPLE_ACCELERATE",
      "turns the Accelerate BLAS route on or off, which changes f32 summation order"),
    ("CAMELID_MODELS_DIR",
      "not consumed by this replica — the serving path passes no models directory, so " ++
        "setting this changes nothing"),
    ("CAMELID_GATEWAY_ADDR", "read by the gateway binary, not by this replica"),
    ("CAMELID_GATEWAY_UPSTREAM", "read by the gateway binary, not by this replica"),
    ("CAMELID_LLAMA3_MISSING_PRE_GGUF",
      "used by this workspace's tokenizer tests, but the engine reads the same name at the " ++
        "pin, so admitting it would put an engine key on the allow list. A shell with it " ++
        "exported cannot start a replica; unset it there, or run the tests in a different " ++
        "shell"),
    ("CAMELID_LLAMA3_REFERENCE_GGUF",
      "used by this workspace's tokenizer tests, but the engine reads the same name at the " ++
        "pin, so admitting it would put an engine key on the allow list. A shell with it " ++
        "exported cannot start a replica; unset it there, or run the tests in a different " ++
        "shell")]

-- ---------------------------------------------------------------------------
-- Names
-- ---------------------------------------------------------------------------

/-- The two comparisons the scan is compiled with. -/
inductive Platform
  | unix
  | windows
deriving DecidableEq, Repr

/-- A name or a value as the system holds it: bytes, which a surrogate may be among. -/
abbrev OsString := List UInt8

/-- `to_string_lossy` -/
def Platform.toStringLossy : Platform → OsString → Str
  | unix => fromUtf8Lossy
  | windows => fromWtf8Lossy

/-- `eq_ignore_ascii_case` -/
def eqIgnoreAsciiCase (a b : List UInt8) : Bool :=
  decide (a.map Headers.lower = b.map Headers.lower)

/-- `name_eq` -/
def nameEq : Platform → Str → String → Bool
  | .unix, name, rule => decide (name = rule.toList)
  | .windows, name, rule => eqIgnoreAsciiCase (encode name) (encode rule.toList)

/-- `name_starts_with` -/
def nameStartsWith : Platform → Str → String → Bool
  | .unix, name, rule => rule.toList.isPrefixOf name
  | .windows, name, rule =>
    let name := encode name
    let rule := encode rule.toList
    decide (rule.length ≤ name.length) && eqIgnoreAsciiCase (name.take rule.length) rule

-- ---------------------------------------------------------------------------
-- The policy
-- ---------------------------------------------------------------------------

/-- What a build admits: the namespace it claims, the rules under it, and the names it refuses
from outside. -/
structure Policy where
  claimed : String
  permitted : List Permit
  refusedForeign : List (String × String)
deriving DecidableEq, Repr

/-- `NAMESPACE`, `PERMITTED` and `REFUSED_FOREIGN` -/
def lanePolicy : Policy := ⟨"CAMELID_", permitted, refusedForeign⟩

namespace Policy

/-- `in_namespace` -/
def inNamespace (policy : Policy) (platform : Platform) (name : Str) : Bool :=
  nameStartsWith platform name policy.claimed

end Policy

/-- `matches` -/
def ruleMatches (platform : Platform) (rule : Match) (name : Str) : Bool :=
  match rule with
  | .Exact rule => nameEq platform name rule
  | .Prefix rule => nameStartsWith platform name rule

/-- `permitted_by` -/
def permittedBy (platform : Platform) (rules : List Permit) (name : Str) : Bool :=
  rules.any fun permit => ruleMatches platform permit.rule name

namespace Policy

/-- `foreign_refusal` -/
def foreignRefusal (policy : Policy) (platform : Platform) (name : Str) : Option String :=
  (policy.refusedForeign.find? fun row => nameEq platform name row.1).map Prod.snd

/-- `refused` -/
def refused (policy : Policy) (platform : Platform) (name : Str) : Bool :=
  (policy.inNamespace platform name && !permittedBy platform policy.permitted name) ||
    (policy.foreignRefusal platform name).isSome

/-- `advice` -/
def advice (policy : Policy) (platform : Platform) (name : Str) : Option String :=
  if canonical.any fun row => nameEq platform name row.1 then
    some ("part of the vector the lane applies itself, so it is refused even at the canonical " ++
      "value — the published configuration digest means \"the vector this replica wrote\", " ++
      "which stops being checkable the moment anyone else can write it too")
  else
    (policy.foreignRefusal platform name).or
      ((advisory.find? fun row => nameEq platform name row.1).map Prod.snd)

end Policy

/-- `rsplit_once` -/
def rsplitOnce (needle : Str) : Str → Option (Str × Str)
  | [] => if needle = [] then some ([], []) else none
  | c :: cs =>
    match rsplitOnce needle cs with
    | some (front, back) => some (c :: front, back)
    | none =>
      if needle.isPrefixOf (c :: cs) then some ([], (c :: cs).drop needle.length) else none

/-- `looks_like_a_service_link` -/
def looksLikeAServiceLink (name : Str) : Bool :=
  match rsplitOnce "_SERVICE_".toList name with
  | none =>
    "_PORT".toList.isSuffixOf name ||
      (rsplitOnce "_PORT_".toList name).any fun parts =>
        Text.contains "_TCP".toList parts.2 || Text.contains "_UDP".toList parts.2
  | some (_, rest) =>
    decide (rest = "HOST".toList) || decide (rest = "PORT".toList) ||
      "PORT_".toList.isPrefixOf rest

-- ---------------------------------------------------------------------------
-- The scan
-- ---------------------------------------------------------------------------

/-- What is printed behind an offender. -/
def annotation (policy : Policy) (platform : Platform) (name : Str) : Str :=
  match policy.advice platform name with
  | some reason => " — ".toList ++ reason.toList
  | none =>
    if looksLikeAServiceLink name then
      (" — looks like a Kubernetes service-link variable, injected from a Service whose name " ++
        "shares this prefix; set enableServiceLinks: false on the pod spec").toList
    else []

/-- The refusal, of all the offenders. -/
def refusalMessage (policy : Policy) (platform : Platform) (offenders : List Str) : Str :=
  ("deterministic lane refuses to start: the output guarantee is stated against a frozen " ++
    "configuration vector, and an unrecognized engine variable can move the numerics without " ++
    "changing the published configuration digest — so the lane fails closed rather than serve " ++
    "under a configuration it cannot vouch for.\n\nUnset these, then start again:\n").toList ++
  offenders.flatMap (fun name =>
    "  ".toList ++ name ++ annotation policy platform name ++ ['\n']) ++
  ("\nThis replica reads exactly these, and nothing else in the namespace is admitted — " ++
    "including the lane's own canonical keys, which the lane sets itself:\n").toList ++
  policy.permitted.flatMap (fun permit =>
    "  ".toList ++ permit.rule.literal.toList ++ (if permit.rule.isPrefix then ['*'] else []) ++
      " — ".toList ++ permit.reason.toList ++ ['\n']) ++
  ("\nRefused from outside that namespace as well, because they move the numerics and this " ++
    "replica is not the one that set them:\n").toList ++
  policy.refusedForeign.flatMap fun row => "  ".toList ++ row.1.toList ++ ['\n']

/-- The names that are collected in a scan, in a `BTreeSet`. -/
def offendersOf (policy : Policy) (platform : Platform) (vars : List (OsString × OsString)) :
    List (Str × Unit) :=
  vars.foldl (fun offenders var =>
    let name := platform.toStringLossy var.1
    if policy.refused platform name then Json.Map.insert name () offenders else offenders) []

/-- `refuse_unpermitted` -/
def refuseUnpermitted (policy : Policy) (platform : Platform) (vars : List (OsString × OsString)) :
    Except Str Unit :=
  match offendersOf policy platform vars with
  | [] => .ok ()
  | offenders => .error (refusalMessage policy platform (offenders.map Prod.fst))

-- ---------------------------------------------------------------------------
-- The digests
-- ---------------------------------------------------------------------------

/-- What the build brings: the digest as it is printed, and the pin of the engine. -/
structure Build where
  sha256 : List UInt8 → Str
  enginePin : String

/-- What `compute_config_sha256` feeds the hasher. -/
def Build.configPreimage (build : Build) : List UInt8 :=
  encode ("posture=".toList ++ executionPosture.toList ++ "\nengine_pin=".toList ++
    build.enginePin.toList)

/-- `compute_config_sha256` -/
def computeConfigSha256 (build : Build) : Str := build.sha256 build.configPreimage

/-- The line of a permitted rule. -/
def Match.line (rule : Match) : Str :=
  rule.digestTag.toList ++ rule.literal.toList ++ ['\n']

/-- The line of a foreign name. -/
def foreignLine (name : String) : Str := "refuse_foreign=".toList ++ name.toList ++ ['\n']

/-- What `compute_admission_sha256` feeds the hasher. -/
def Policy.preimage (policy : Policy) : List UInt8 :=
  encode (policy.permitted.flatMap (fun permit => permit.rule.line) ++
    (policy.refusedForeign.flatMap (fun row => foreignLine row.1) ++
      ("namespace=".toList ++ policy.claimed.toList)))

/-- `compute_admission_sha256` -/
def computeAdmissionSha256 (build : Build) (policy : Policy) : Str :=
  build.sha256 policy.preimage

-- ---------------------------------------------------------------------------
-- The start
-- ---------------------------------------------------------------------------

/-- `ConfigVector` -/
structure ConfigVector where
  sha256 : Str
  admissionSha256 : Str
deriving DecidableEq, Repr

/-- The environment of a process, in the order it is listed. -/
abbrev Env := List (OsString × OsString)

/-- The value a name has: that of the first entry. -/
def Env.get (env : Env) (name : OsString) : Option OsString :=
  (env.find? fun var => var.1 = name).map Prod.snd

/-- `set_var`: in place of what the name had, or behind the rest. -/
def Env.set (name value : OsString) : Env → Env
  | [] => [(name, value)]
  | var :: rest => if var.1 = name then (name, value) :: rest else var :: Env.set name value rest

/-- `remove_var` -/
def Env.remove (env : Env) (name : OsString) : Env := env.filter fun var => var.1 ≠ name

/-- The vector is written key by key. -/
def writeCanonical (env : Env) : Env :=
  canonical.foldl (fun env row => env.set (encode row.1.toList) (encode row.2.toList)) env

/-- `apply_deterministic` -/
def applyDeterministic (build : Build) (env : Env) : Except Str ConfigVector × Env :=
  match refuseUnpermitted lanePolicy .unix env with
  | .error message => (.error message, env)
  | .ok () =>
    (.ok ⟨computeConfigSha256 build, computeAdmissionSha256 build lanePolicy⟩,
      writeCanonical env)

end CamelidEnterprise.Lane

import Mathlib.Data.List.AList
import CamelidEnterprise.Engine.Error
import CamelidEnterprise.Foundation.Machine
import CamelidEnterprise.Foundation.Rounding

/-!
# Camelid Enterprise — the shared quota

`crates/platform-store/src/lib.rs`: the fixed-window request counters that all
gateway pods keep in one PostgreSQL database. The tables are a state, each SQL
statement is one atomic step on it, and any pod may take the next step.

* an admission is the single statement `ADMIT_SQL` (`admitSql`), then the reading
  of the row it returned (`readAdmission`);
* `configureQuota` is one transaction under the schema lock;
* a sweep is a transaction of several `DELETE` statements under its own lock;
  what they delete is gone for the others when it commits.

What is assumed of the database:

* its clock is a number of microseconds since the epoch and never goes back;
* `bigint` is an integer: a count or a window start that leaves 64 bits is an error of
  the statement, which is a refusal.
-/

namespace CamelidEnterprise.PlatformStore

open Foundation Foundation.Rounding

/-- Microseconds in a second, the resolution of a `timestamptz`. -/
def microsPerSecond : Int := 1000000

/-- `RETENTION_WINDOWS` -/
def retentionWindows : Int := 3

/-- `SWEEP_BATCH_ROWS` -/
def sweepBatchRows : Nat := 10000

/-- `SWEEP_MAX_BATCHES` -/
def sweepMaxBatches : Nat := 32

/-- `i64::MAX` -/
def i64Max : Int := 2 ^ 63 - 1

/-- The row of `quota_config`. -/
structure QuotaConfig where
  requestLimit : Int
  windowSeconds : Int
deriving DecidableEq, Repr

/-- The key of a row of `quota_windows`. -/
structure WindowKey where
  organizationId : Str
  windowStartEpoch : Int
deriving DecidableEq, Repr

/-- A sweep whose transaction is open: when it began, the age its statements
delete from, how many have run, and the rows they have deleted. -/
structure Sweep where
  startedAt : Int
  retention : Int
  batches : Nat
  deleted : List WindowKey
  finished : Bool
deriving DecidableEq, Repr

/-- The database: its clock, the two tables, and the holder of the sweep lock. -/
structure Store where
  now : Int
  config : Option QuotaConfig
  windows : AList fun _ : WindowKey => Int
  sweep : Option Sweep

/-- `PlatformStoreError`, as far as these operations return it. -/
inductive PlatformStoreError
  | Database (message : String)
  | QuotaWindowMismatch (configured : Nat) (stored : Int)
deriving DecidableEq, Repr

/-- `QuotaRefusal`; a duration is a number of nanoseconds. -/
inductive QuotaRefusal
  | Unavailable (error : PlatformStoreError)
  | Exceeded (retryAfter : Nat)
deriving DecidableEq, Repr

-- ---------------------------------------------------------------------------
-- Admission
-- ---------------------------------------------------------------------------

/-- `floor(extract(epoch FROM now()) / $2) * $2` -/
def windowStart (now windowSeconds : Int) : Int :=
  now / (windowSeconds * microsPerSecond) * windowSeconds

/-- The row `ADMIT_SQL` returns. -/
structure AdmitRow where
  admitted : Bool
  retryAfterSeconds : ℚ
  requestLimit : Option Int
deriving DecidableEq

/-- The counter of an organization's window; a window without a row has none yet. -/
def Store.count (store : Store) (key : WindowKey) : Int := (store.windows.lookup key).getD 0

/-- `ADMIT_SQL`: the row it returns, and the store after it. -/
def admitSql (store : Store) (organization : Str) (windowSeconds : Int) : AdmitRow × Store :=
  let start := windowStart store.now windowSeconds
  let key : WindowKey := ⟨organization, start⟩
  let remaining : ℚ := start + windowSeconds - (store.now : ℚ) / microsPerSecond
  match store.config with
  -- neither branch of the upsert passes its guard without a limit
  | none => (⟨false, remaining, none⟩, store)
  | some config =>
    match store.windows.lookup key with
    | none =>
      (⟨true, remaining, some config.requestLimit⟩,
        { store with windows := store.windows.insert key 1 })
    | some requestCount =>
      if requestCount < config.requestLimit then
        (⟨true, remaining, some config.requestLimit⟩,
          { store with windows := store.windows.insert key (requestCount + 1) })
      else
        (⟨false, remaining, some config.requestLimit⟩, store)

/-- `u32::MAX as f64` -/
def u32Max : ℚ := 2 ^ 32 - 1

/-- `Duration::from_secs_f64`, which rounds to the nearest nanosecond. -/
def fromSecsF64 (seconds : ℚ) : Nat := (roundHalfEven (seconds * 10 ^ 9)).toNat

/-- The message of an admission that finds no configuration row. -/
def noConfigurationMessage : String :=
  "the platform store has no quota configuration row, so no limit can be " ++
  "enforced; restart a gateway against it to record one"

/-- What `admit` makes of the row. -/
def readAdmission (row : AdmitRow) : Except QuotaRefusal Unit :=
  if row.admitted then
    .ok ()
  else if row.requestLimit = none then
    .error (.Unavailable (.Database noConfigurationMessage))
  else
    -- the column is `double precision`
    .error (.Exceeded (fromSecsF64 (max 0 (min u32Max (toDouble row.retryAfterSeconds)))))

-- ---------------------------------------------------------------------------
-- Configuration
-- ---------------------------------------------------------------------------

/-- `QuotaWindowChange` -/
inductive QuotaWindowChange
  | Refuse
  | Reconfigure
deriving DecidableEq, Repr

/-- `QuotaConfiguration` -/
inductive QuotaConfiguration
  | Initialized
  | Unchanged
  | LimitChanged (previous : Nat)
  | WindowChanged (previous : Nat)
deriving DecidableEq, Repr

/-- `configure_quota`, with the window already read as a `bigint`. -/
def configureQuota (store : Store) (limit window : Nat) (onWindowChange : QuotaWindowChange) :
    Except PlatformStoreError QuotaConfiguration × Store :=
  match store.config with
  | none => (.ok .Initialized, { store with config := some ⟨limit, window⟩ })
  | some stored =>
    if stored.windowSeconds ≠ window then
      match onWindowChange with
      | .Refuse => (.error (.QuotaWindowMismatch window stored.windowSeconds), store)
      | .Reconfigure =>
        -- every counter was measured against window starts the new length does not produce
        (.ok (.WindowChanged stored.windowSeconds.natAbs),
          { store with config := some ⟨limit, window⟩, windows := ∅ })
    else if stored.requestLimit = limit then
      (.ok .Unchanged, store)
    else
      (.ok (.LimitChanged stored.requestLimit.natAbs),
        { store with config := some { stored with requestLimit := limit } })

-- ---------------------------------------------------------------------------
-- Sweeping
-- ---------------------------------------------------------------------------

/-- `SweepOutcome` -/
inductive SweepOutcome
  | SkippedLockHeld
  | Deleted (rows : Nat)
deriving DecidableEq, Repr

/-- `window_seconds.saturating_mul(RETENTION_WINDOWS)` -/
def sweepRetention (windowSeconds : Int) : Int := min (windowSeconds * retentionWindows) i64Max

/-- The rows a sweep's next statement may delete: old enough when the transaction
began, and not deleted by it already. -/
def Sweep.matching (sweep : Sweep) (store : Store) : List WindowKey :=
  store.windows.keys.filter fun key =>
    decide (key.windowStartEpoch < sweep.startedAt / microsPerSecond - sweep.retention) &&
      !sweep.deleted.contains key

/-- One `SWEEP_SQL` statement that picked `batch`. The loop goes on while batches
are full and there are some left to run. -/
def Sweep.afterBatch (sweep : Sweep) (batch : List WindowKey) : Sweep :=
  { sweep with
    batches := sweep.batches + 1
    deleted := sweep.deleted ++ batch
    finished := decide (batch.length < sweepBatchRows ∨ sweep.batches + 1 = sweepMaxBatches) }

/-- The table without the rows a committed sweep deleted. -/
def removeRows (windows : AList fun _ : WindowKey => Int) (keys : List WindowKey) :
    AList fun _ : WindowKey => Int :=
  keys.foldl (fun table key => table.erase key) windows

-- ---------------------------------------------------------------------------
-- Any number of pods
-- ---------------------------------------------------------------------------

/-- What can happen next. Every pod is configured with the same window. -/
inductive Action
  /-- time passes -/
  | tick (now : Int)
  /-- a pod admits a request; it may lose the database's answer -/
  | admitRequest (organization : Str) (answered : Bool)
  /-- a pod starts, with its limit -/
  | configure (limit : Nat) (onWindowChange : QuotaWindowChange)
  /-- a pod begins a sweep, runs a statement of it, ends it, or loses it -/
  | sweepBegin
  | sweepBatch (batch : List WindowKey)
  | sweepCommit
  | sweepAbort
  /-- an operator removes the configuration row -/
  | dropConfig

/-- What the caller of a step sees. -/
inductive Result
  | silent
  | admission (outcome : Except QuotaRefusal Unit)
  | configured (outcome : Except PlatformStoreError QuotaConfiguration)
  | swept (outcome : SweepOutcome)

/-- What `admit` returns when the connection is lost after the statement ran. -/
def lostAnswer : Except QuotaRefusal Unit :=
  .error (.Unavailable (.Database "connection closed"))

/-- The steps of the database and its pods, all configured with `window`. -/
inductive Step (window : Nat) : Store → Action → Result → Store → Prop
  | tick {store : Store} {now : Int} (hclock : store.now ≤ now) :
      Step window store (.tick now) .silent { store with now }
  | admitRequest {store : Store} {organization : Str} :
      Step window store (.admitRequest organization true)
        (.admission (readAdmission (admitSql store organization window).1))
        (admitSql store organization window).2
  | admitLost {store : Store} {organization : Str} :
      Step window store (.admitRequest organization false) (.admission lostAnswer)
        (admitSql store organization window).2
  | configure {store : Store} {limit : Nat} {mode : QuotaWindowChange} (hlimit : 0 < limit) :
      Step window store (.configure limit mode)
        (.configured (configureQuota store limit window mode).1)
        (configureQuota store limit window mode).2
  | sweepSkipped {store : Store} {sweep : Sweep} (hheld : store.sweep = some sweep) :
      Step window store .sweepBegin (.swept .SkippedLockHeld) store
  | sweepBegin {store : Store} (hfree : store.sweep = none) :
      Step window store .sweepBegin .silent
        { store with sweep := some ⟨store.now, sweepRetention window, 0, [], false⟩ }
  | sweepBatch {store : Store} {sweep : Sweep} {batch : List WindowKey}
      (hheld : store.sweep = some sweep) (hopen : sweep.finished = false)
      (hbatch : batch.Nodup) (hmatch : ∀ key ∈ batch, key ∈ sweep.matching store)
      (hlimit : batch.length = min sweepBatchRows (sweep.matching store).length) :
      Step window store (.sweepBatch batch) .silent
        { store with sweep := some (sweep.afterBatch batch) }
  | sweepCommit {store : Store} {sweep : Sweep} (hheld : store.sweep = some sweep)
      (hdone : sweep.finished = true) :
      Step window store .sweepCommit (.swept (.Deleted sweep.deleted.length))
        { store with windows := removeRows store.windows sweep.deleted, sweep := none }
  | sweepAbort {store : Store} : Step window store .sweepAbort .silent { store with sweep := none }
  | dropConfig {store : Store} :
      Step window store .dropConfig .silent { store with config := none }

/-- A fresh database, at any time. -/
def Store.Fresh (store : Store) : Prop :=
  store.config = none ∧ store.windows = ∅ ∧ store.sweep = none

/-- The deployment: one database, any number of pods. -/
def deployment (window : Nat) : Machine Store Action Result where
  start := Store.Fresh
  step := Step window

end CamelidEnterprise.PlatformStore

import CamelidEnterprise.Foundation.Binary
import CamelidEnterprise.Foundation.Json
import CamelidEnterprise.Foundation.Effect
import CamelidEnterprise.Foundation.Table
import CamelidEnterprise.Foundation.Text
import CamelidEnterprise.Platform.Quota

/-!
# Camelid Enterprise — evidence ingestion

`crates/platform-store/src/lib.rs`: lines of an append-only log become rows of one
table per stream, a thousand lines to a statement, and line by line where a
statement was refused.

* `evidenceKeys` reads what a row is found by out of a line, or says why the line
  is no record;
* `ingestEvidence` is the loop over a file, `ingestBatch` one statement with its
  fallback, `ingestEvidenceLine` one line;
* `World` is what the code relies on and cannot see into: the JSON library, and a
  database that digests a line, stores it, refuses it, or does not answer.

A database error reaches the code after any call of the client. What a statement
changed is kept when it was only the answer that was lost.

What is assumed of the database, and what is left out:

* a statement stores all of its rows or none of them, and a key that is there is left as
  it is;
* which error a line meets depends on the line and its stream, and not on what is stored;
* the connections, their encryption and the check of the schema come before all this.
-/

namespace CamelidEnterprise.PlatformStore

open Foundation Foundation.Json

/-- `INGEST_BATCH_LINES` -/
def ingestBatchLines : Nat := 1000

inductive EvidenceStream
  | GatewayAudit
  | GatewayUsage
  | ReplicaReceipt
deriving DecidableEq, Repr

namespace EvidenceStream

def table : EvidenceStream → String
  | .GatewayAudit => "gateway_audit"
  | .GatewayUsage => "gateway_usage"
  | .ReplicaReceipt => "replica_receipt"

/-- `correlation_is_optional` -/
def correlationIsOptional : EvidenceStream → Bool
  | .ReplicaReceipt => true
  | _ => false

/-- Whether the statements of a stream write an `organization`. -/
def hasOrganization : EvidenceStream → Bool
  | .ReplicaReceipt => false
  | _ => true

end EvidenceStream

-- ---------------------------------------------------------------------------
-- Lines
-- ---------------------------------------------------------------------------

/-- `EvidenceKeys`; a timestamp is the word of a double. -/
structure EvidenceKeys where
  requestId : Option Str
  organization : Option Str
  ts : Nat
deriving DecidableEq, Repr

/-- `Number::as_f64` -/
def asF64 : Number → Nat
  | .PosInt n => Format.double.ofInt n
  | .NegInt n => Format.double.ofInt n
  | .Float bits => bits

/-- The `ts` of a record: `and_then(Value::as_f64)`, if it is finite. -/
def timestamp : Option Value → Option Nat
  | some (.Number n) => if Format.double.isFinite (asF64 n) then some (asF64 n) else none
  | _ => none

/-- The `request_id` of a record: absent where that is allowed, or not acceptable. -/
def requestId (stream : EvidenceStream) : Option Value → Option (Option Str)
  | some (.String id) => if id ≠ [] then some (some id) else none
  | some .Null | none => if stream.correlationIsOptional then some none else none
  | _ => none

/-- The `organization` of a record: any string, or none. -/
def organization : Option Value → Option Str
  | some (.String organization) => some organization
  | _ => none

/-- `tokio_postgres::Error`: its SQLSTATE where the server sent one, its text and the
texts of its sources. -/
structure DatabaseError where
  code : Option Str
  message : String
  causes : List String
deriving DecidableEq, Repr

/-- `is_unstorable_record`: class 22. -/
def isUnstorableRecord (error : DatabaseError) : Bool :=
  match error.code with
  | some state => ['2', '2'].isPrefixOf state
  | none => false

/-- `database_error` -/
def databaseError (error : DatabaseError) : PlatformStoreError :=
  .Database (error.causes.foldl (fun message cause => message ++ ": " ++ cause) error.message)

/-- A call that failed for a reason of its own: class 22 is a verdict on a record and
never this. `landed` says that the statement took effect all the same. -/
structure Interruption where
  error : DatabaseError
  landed : Bool
  notOfRecord : isUnstorableRecord error = false

/-- The JSON library and the database. `ρ` is what a `jsonb` column holds. -/
structure World (ρ : Type) where
  parser : Parser
  /-- what the library says of a text it cannot read -/
  parseError : Str → String
  sha256 : List UInt8 → List UInt8
  jsonb : Str → ρ
  /-- the error a line meets in the tables of a stream -/
  refusal : EvidenceStream → Str → Option DatabaseError
  /-- of the errors the lines of one statement meet, the one the statement ends with -/
  reported : List DatabaseError → DatabaseError
  reported_mem : ∀ errors, errors ≠ [] → reported errors ∈ errors
  /-- the calls that fail, by their number -/
  interruption : Nat → Option Interruption

variable {ρ : Type}

/-- The same surroundings, in which other calls fail. -/
def World.under (w : World ρ) (interruption : Nat → Option Interruption) : World ρ :=
  { w with interruption }

/-- The same surroundings, in which every call is answered. -/
def World.quiet (w : World ρ) : World ρ := w.under fun _ => none

/-- `evidence_keys` -/
def evidenceKeys (w : World ρ) (stream : EvidenceStream) (line : Str) :
    Except String EvidenceKeys :=
  match w.parser.fromSlice (Utf8.encode line) with
  | none => .error ("not JSON: " ++ w.parseError line)
  | some (.Object record) =>
    match timestamp (Map.get "ts".toList record) with
    | none => .error "no finite numeric \x60ts\x60"
    | some ts =>
      match requestId stream (Map.get "request_id".toList record) with
      | none => .error "no non-empty string \x60request_id\x60"
      | some requestId =>
        .ok ⟨requestId, organization (Map.get "organization".toList record), ts⟩
  | some _ => .error "not a JSON object"

-- ---------------------------------------------------------------------------
-- Rows and statements
-- ---------------------------------------------------------------------------

/-- A row of an evidence table. -/
structure EvidenceRow (ρ : Type) where
  lineSha256 : List UInt8
  requestId : Option Str
  organization : Option Str
  ts : Nat
  record : ρ

/-- The row the statements of a stream make of a line. -/
def World.row (w : World ρ) (stream : EvidenceStream) (line : Str) (keys : EvidenceKeys) :
    EvidenceRow ρ where
  lineSha256 := w.sha256 (Utf8.encode line)
  requestId := keys.requestId
  organization := if stream.hasOrganization then keys.organization else none
  ts := keys.ts
  record := w.jsonb line

/-- The three tables, and how many calls the client has made. -/
structure EvidenceStore (ρ : Type) where
  tables : EvidenceStream → Table (EvidenceRow.lineSha256 (ρ := ρ))
  calls : Nat

/-- The store with this table of a stream. -/
def EvidenceStore.put (store : EvidenceStore ρ) (stream : EvidenceStream)
    (table : Table (EvidenceRow.lineSha256 (ρ := ρ))) : EvidenceStore ρ :=
  { store with tables := Function.update store.tables stream table }

/-- The store after one more call. -/
def EvidenceStore.called (store : EvidenceStore ρ) : EvidenceStore ρ :=
  { store with calls := store.calls + 1 }

/-- A method of the store. -/
abbrev Ingest (ρ : Type) := Effect (EvidenceStore ρ) PlatformStoreError

/-- `self.client().await?` -/
def client (w : World ρ) : Ingest ρ Unit := fun store =>
  match w.interruption store.calls with
  | some interruption => (.err (databaseError interruption.error), store.called)
  | none => (.ok (), store.called)

/-- What the rows of a statement do to the table of their stream. -/
def World.insert (w : World ρ) (stream : EvidenceStream) (batch : List (Str × EvidenceKeys))
    (store : EvidenceStore ρ) : EvidenceStore ρ :=
  store.put stream ((store.tables stream).insertAll
    (batch.map fun entry => w.row stream entry.1 entry.2))

/-- `client.execute(stream.insert_batch_sql(), ..)`: how many rows were inserted. A
statement with a row that is refused inserts none. -/
def executeBatch (w : World ρ) (stream : EvidenceStream) (batch : List (Str × EvidenceKeys)) :
    Ingest ρ (Except DatabaseError Nat) := fun store =>
  let refusals := batch.filterMap fun entry => w.refusal stream entry.1
  let inserted := w.insert stream batch store
  match w.interruption store.calls with
  | some interruption =>
    if interruption.landed ∧ refusals = [] then (.ok (.error interruption.error), inserted.called)
    else (.ok (.error interruption.error), store.called)
  | none =>
    if refusals = [] then
      (.ok (.ok ((inserted.tables stream).rows.length - (store.tables stream).rows.length)),
        inserted.called)
    else (.ok (.error (w.reported refusals)), store.called)

/-- `client.query_opt(stream.insert_sql(), ..)`: the row that says a line was inserted. -/
def queryOpt (w : World ρ) (stream : EvidenceStream) (line : Str) (keys : EvidenceKeys) :
    Ingest ρ (Except DatabaseError (Option Unit)) := do
  let inserted ← executeBatch w stream [(line, keys)]
  return inserted.map fun rows => if rows = 0 then none else some ()

-- ---------------------------------------------------------------------------
-- Ingestion
-- ---------------------------------------------------------------------------

/-- `Ingested` -/
inductive Ingested
  | Stored
  | AlreadyPresent
  | Unreadable (why : String)
deriving DecidableEq, Repr

/-- `IngestSummary` -/
structure IngestSummary where
  stored : Nat
  alreadyPresent : Nat
  unreadable : Nat
deriving DecidableEq, Repr

namespace IngestSummary

def default : IngestSummary := ⟨0, 0, 0⟩

/-- `count_unreadable` -/
def countUnreadable (summary : IngestSummary) : IngestSummary :=
  { summary with unreadable := summary.unreadable + 1 }

/-- One line counted. -/
def count (summary : IngestSummary) : Ingested → IngestSummary
  | .Stored => { summary with stored := summary.stored + 1 }
  | .AlreadyPresent => { summary with alreadyPresent := summary.alreadyPresent + 1 }
  | .Unreadable _ => summary.countUnreadable

end IngestSummary

/-- What `insert_evidence` makes of the answer. -/
def readInserted : Except DatabaseError (Option Unit) → Ingest ρ Ingested
  | .ok (some ()) => pure .Stored
  | .ok none => pure .AlreadyPresent
  | .error error =>
    if isUnstorableRecord error then pure (.Unreadable error.message)
    else Effect.throw (databaseError error)

/-- `insert_evidence` -/
def insertEvidence (w : World ρ) (stream : EvidenceStream) (line : Str) (keys : EvidenceKeys) :
    Ingest ρ Ingested := do
  client w
  let stored ← queryOpt w stream line keys
  readInserted stored

/-- `ingest_evidence_line` -/
def ingestEvidenceLine (w : World ρ) (stream : EvidenceStream) (line : Str) : Ingest ρ Ingested :=
  match evidenceKeys w stream line with
  | .ok keys => insertEvidence w stream line keys
  | .error why => pure (.Unreadable why)

/-- The lines of a refused batch, one by one. -/
def insertEach (w : World ρ) (stream : EvidenceStream) :
    List (Str × EvidenceKeys) → IngestSummary → Ingest ρ IngestSummary
  | [], summary => pure summary
  | (line, keys) :: batch, summary => do
    let ingested ← insertEvidence w stream line keys
    insertEach w stream batch (summary.count ingested)

/-- What `ingest_batch` makes of the answer. -/
def readBatch (w : World ρ) (stream : EvidenceStream) (batch : List (Str × EvidenceKeys))
    (summary : IngestSummary) : Except DatabaseError Nat → Ingest ρ IngestSummary
  | .ok stored =>
    pure { summary with
      stored := summary.stored + stored
      alreadyPresent := summary.alreadyPresent + (batch.length - stored) }
  | .error error =>
    if isUnstorableRecord error then insertEach w stream batch summary
    else Effect.throw (databaseError error)

/-- `ingest_batch` -/
def ingestBatch (w : World ρ) (stream : EvidenceStream) (batch : List (Str × EvidenceKeys))
    (summary : IngestSummary) : Ingest ρ IngestSummary := do
  client w
  let inserted ← executeBatch w stream batch
  readBatch w stream batch summary inserted

/-- One line of the loop: the batch it may join, and the count it may add to. -/
def pushLine (w : World ρ) (stream : EvidenceStream) (line : Str)
    (batch : List (Str × EvidenceKeys)) (summary : IngestSummary) :
    List (Str × EvidenceKeys) × IngestSummary :=
  match evidenceKeys w stream line with
  | .ok keys => (batch ++ [(line, keys)], summary)
  | .error _ => (batch, summary.countUnreadable)

/-- The loop of `ingest_evidence`, and the batch left at its end. -/
def ingestLoop (w : World ρ) (stream : EvidenceStream) :
    List Str → List (Str × EvidenceKeys) → IngestSummary → Ingest ρ IngestSummary
  | [], batch, summary => if batch ≠ [] then ingestBatch w stream batch summary else pure summary
  | line :: lines, batch, summary =>
    if Foundation.Text.trim line = [] then ingestLoop w stream lines batch summary
    else
      let pushed := pushLine w stream line batch summary
      if pushed.1.length = ingestBatchLines then do
        let summary ← ingestBatch w stream pushed.1 pushed.2
        ingestLoop w stream lines [] summary
      else ingestLoop w stream lines pushed.1 pushed.2

/-- `ingest_evidence` -/
def ingestEvidence (w : World ρ) (stream : EvidenceStream) (contents : Str) :
    Ingest ρ IngestSummary :=
  ingestLoop w stream (Foundation.Text.lines contents) [] .default

end CamelidEnterprise.PlatformStore

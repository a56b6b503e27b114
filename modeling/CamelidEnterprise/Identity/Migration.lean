import Mathlib.Data.Char
import Mathlib.Data.List.Lex
import CamelidEnterprise.Identity.Store

/-!
# Camelid Enterprise — opening an identity database

`initialize_schema` of `crates/identity/src/lib.rs`: a file of schema version 0, 1
or 2 is brought to version 3 by chained steps inside one transaction, which takes
the write lock before it reads the version it acts on.

A `DatabaseFile` holds whichever tables the file has at the moment, so that a
statement can fail on a table that is missing or one that is there already; the
`tokens` table also says which columns it has. Every SQL statement is one step
that may fail (`World.failure`), and what a migration leaves is what its connection
has stored, as in the store.

`Opening` is any number of processes that open one file at once: each reads the
version without the lock, and then either validates or goes through the
transaction, which is one step of the shared file.

What is assumed, and where the representation is coarser than the source:

* SQLite lets one connection write at a time, and undoes a transaction that ends without
  its `COMMIT`;
* a table is known by its columns, their rules and its keys, and an index by its name.
-/

namespace CamelidEnterprise.Identity

open Foundation

/-- The errors of `IdentityError` that opening a database returns. -/
inductive OpenError
  | UnsupportedSchemaVersion (found supported : Int)
  | MigrationIntegrity (message : String)
  | Storage (message : String)
deriving DecidableEq, Repr

/-- `IDENTITY_SCHEMA_VERSION` -/
def identitySchemaVersion : Int := 3

-- ---------------------------------------------------------------------------
-- The file
-- ---------------------------------------------------------------------------

/-- Whether a column takes `NULL`. -/
inductive ColumnRule
  | Nullable
  | NotNull
deriving DecidableEq, Repr

/-- A row of `tokens` at any version. -/
structure TokenRecord where
  tokenHash : Str
  principalId : PrincipalId
  organizationId : Option OrganizationId
  createdAtUnix : Int
  expiresAtUnix : Option Int

/-- A `tokens` table: the rules of the two columns not every version has, whether
its foreign key goes to the memberships, and its rows. -/
structure TokensTable where
  organizationId : Option ColumnRule
  expiresAtUnix : Option ColumnRule
  membershipKey : Bool
  records : Table TokenRecord.tokenHash

inductive TableName
  | users
  | organizations
  | organizationMemberships
  | tokens
  | tokensV2
deriving DecidableEq, Repr

def TableName.sql : TableName → String
  | .users => "users"
  | .organizations => "organizations"
  | .organizationMemberships => "organization_memberships"
  | .tokens => "tokens"
  | .tokensV2 => "tokens_v2"

/-- The database file: its `user_version`, the tables it has, and its indexes. -/
structure DatabaseFile where
  userVersion : Int
  users : Option (Table UserRow.principalId)
  organizations : Option (Table OrganizationRow.organizationId)
  memberships : Option (Table MembershipRow.key)
  tokens : Option TokensTable
  tokensV2 : Option TokensTable
  indexes : List (String × TableName)

/-- A new column is no part of a token's key. -/
theorem tokenHash_unscoped (row : TokenRecord) :
    ({ row with organizationId := none } : TokenRecord).tokenHash = row.tokenHash := rfl

theorem tokenHash_unexpired (row : TokenRecord) :
    ({ row with expiresAtUnix := none } : TokenRecord).tokenHash = row.tokenHash := rfl

namespace DatabaseFile

def has (file : DatabaseFile) : TableName → Bool
  | .users => file.users.isSome
  | .organizations => file.organizations.isSome
  | .organizationMemberships => file.memberships.isSome
  | .tokens => file.tokens.isSome
  | .tokensV2 => file.tokensV2.isSome

/-- A statement names a table. -/
def table {α : Type} (name : TableName) : Option α → Except String α
  | some table => .ok table
  | none => .error ("no such table: " ++ name.sql)

/-- `CREATE TABLE` of a table that is not there. -/
def create {α : Type} (name : TableName) (new : α) : Option α → Except String (Option α)
  | some _ => .error ("table " ++ name.sql ++ " already exists")
  | none => .ok (some new)

/-- `PRAGMA user_version = ...` -/
def setUserVersion (version : Int) (file : DatabaseFile) : Except String DatabaseFile :=
  .ok { file with userVersion := version }

/-- `CREATE INDEX` -/
def createIndex (index : String) (on : TableName) (file : DatabaseFile) :
    Except String DatabaseFile :=
  if file.has on then
    if index ∈ file.indexes.map Prod.fst then .error ("index " ++ index ++ " already exists")
    else .ok { file with indexes := file.indexes ++ [(index, on)] }
  else .error ("no such table: " ++ on.sql)

/-- `CREATE INDEX IF NOT EXISTS` -/
def createIndexIfNotExists (index : String) (on : TableName) (file : DatabaseFile) :
    Except String DatabaseFile :=
  if index ∈ file.indexes.map Prod.fst then .ok file else file.createIndex index on

/-- `CREATE TABLE organizations` -/
def createOrganizations (file : DatabaseFile) : Except String DatabaseFile := do
  return { file with organizations := ← create .organizations .empty file.organizations }

/-- `CREATE TABLE organization_memberships` -/
def createMemberships (file : DatabaseFile) : Except String DatabaseFile := do
  return { file with memberships := ← create .organizationMemberships .empty file.memberships }

/-- `CREATE TABLE tokens_v2` -/
def createTokensV2 (file : DatabaseFile) : Except String DatabaseFile := do
  return { file with tokensV2 := ← create .tokensV2 ⟨some .NotNull, none, true, .empty⟩ file.tokensV2 }

/-- The four `CREATE TABLE IF NOT EXISTS` of version 3. -/
def createUsersIfNotExists (file : DatabaseFile) : Except String DatabaseFile :=
  .ok { file with users := some (file.users.getD .empty) }

def createOrganizationsIfNotExists (file : DatabaseFile) : Except String DatabaseFile :=
  .ok { file with organizations := some (file.organizations.getD .empty) }

def createMembershipsIfNotExists (file : DatabaseFile) : Except String DatabaseFile :=
  .ok { file with memberships := some (file.memberships.getD .empty) }

def createTokensIfNotExists (file : DatabaseFile) : Except String DatabaseFile :=
  .ok { file with tokens := some (file.tokens.getD ⟨some .NotNull, some .Nullable, true, .empty⟩) }

/-- `ALTER TABLE tokens ADD COLUMN organization_id TEXT`: it is `NULL` in every row. -/
def addOrganizationColumn (file : DatabaseFile) : Except String DatabaseFile := do
  let tokens ← table .tokens file.tokens
  match tokens.organizationId with
  | some _ => .error "duplicate column name: organization_id"
  | none =>
    .ok { file with
      tokens := some { tokens with
        organizationId := some .Nullable
        records := tokens.records.update (fun row => { row with organizationId := none })
          tokenHash_unscoped } }

/-- `ALTER TABLE tokens ADD COLUMN expires_at_unix INTEGER`: it is `NULL` in every row. -/
def addExpiryColumn (file : DatabaseFile) : Except String DatabaseFile := do
  let tokens ← table .tokens file.tokens
  match tokens.expiresAtUnix with
  | some _ => .error "duplicate column name: expires_at_unix"
  | none =>
    .ok { file with
      tokens := some { tokens with
        expiresAtUnix := some .Nullable
        records := tokens.records.update (fun row => { row with expiresAtUnix := none })
          tokenHash_unexpired } }

/-- `INSERT INTO organizations` -/
def insertOrganization (row : OrganizationRow) (file : DatabaseFile) :
    Except String DatabaseFile := do
  let organizations ← table .organizations file.organizations
  if hfree : organizations.find row.organizationId = none then
    .ok { file with organizations := some (organizations.insertNew row hfree) }
  else
    .error (uniqueFailed "organizations.organization_id")

/-- `INSERT INTO organization_memberships` -/
def insertMembership (row : MembershipRow) (file : DatabaseFile) : Except String DatabaseFile := do
  let memberships ← table .organizationMemberships file.memberships
  let organizations ← table .organizations file.organizations
  let users ← table .users file.users
  if hfree : memberships.find row.key = none then
    if organizations.find row.organizationId = none ∨ users.find row.principalId = none then
      .error foreignKeyFailed
    else
      .ok { file with memberships := some (memberships.insertNew row hfree) }
  else
    .error (uniqueFailed
      "organization_memberships.organization_id, organization_memberships.principal_id")

/-- `UPDATE tokens SET organization_id = ?1 WHERE principal_id = ?2` -/
def scopeTokens (organization : OrganizationId) (principal : PrincipalId) (file : DatabaseFile) :
    Except String DatabaseFile := do
  let tokens ← table .tokens file.tokens
  match tokens.organizationId with
  | none => .error "no such column: organization_id"
  | some _ =>
    .ok { file with
      tokens := some { tokens with
        records := tokens.records.update
          (fun row =>
            if row.principalId = principal then { row with organizationId := some organization }
            else row)
          fun row => by split <;> rfl } }

/-- One row of `INSERT INTO tokens_v2 ... SELECT ... FROM tokens`. -/
def copyToken (membershipKey : Bool) (memberships : Table MembershipRow.key)
    (target : Table TokenRecord.tokenHash) (row : TokenRecord) :
    Except String (Table TokenRecord.tokenHash) :=
  match row.organizationId with
  | none => .error "NOT NULL constraint failed: tokens_v2.organization_id"
  | some organization =>
    let copy : TokenRecord := { row with expiresAtUnix := none }
    if hfree : target.find copy.tokenHash = none then
      if membershipKey ∧ memberships.find (organization, row.principalId) = none then
        .error foreignKeyFailed
      else .ok (target.insertNew copy hfree)
    else .error (uniqueFailed "tokens_v2.token_hash")

/-- `INSERT INTO tokens_v2 ... SELECT ... FROM tokens` -/
def copyTokens (file : DatabaseFile) : Except String DatabaseFile := do
  let target ← table .tokensV2 file.tokensV2
  let tokens ← table .tokens file.tokens
  let memberships ← table .organizationMemberships file.memberships
  if tokens.organizationId = none then .error "no such column: organization_id"
  else
    let records ← tokens.records.rows.foldlM (copyToken target.membershipKey memberships)
      target.records
    .ok { file with tokensV2 := some { target with records } }

/-- `DROP TABLE tokens`, and its indexes with it. -/
def dropTokens (file : DatabaseFile) : Except String DatabaseFile := do
  let _ ← table .tokens file.tokens
  .ok { file with
    tokens := none
    indexes := file.indexes.filter fun index => decide (index.2 ≠ .tokens) }

/-- `ALTER TABLE tokens_v2 RENAME TO tokens` -/
def renameTokensV2 (file : DatabaseFile) : Except String DatabaseFile := do
  let renamed ← table .tokensV2 file.tokensV2
  let tokens ← create .tokens renamed file.tokens
  .ok { file with
    tokens
    tokensV2 := none
    indexes := file.indexes.map fun index =>
      if index.2 = .tokensV2 then (index.1, .tokens) else index }

/-- A token of a principal that is not there, from the `LEFT JOIN` of both tables. -/
def orphanedPrincipal (file : DatabaseFile) : Except String (Option PrincipalId) := do
  let tokens ← table .tokens file.tokens
  let users ← table .users file.users
  .ok ((tokens.records.rows.find? fun row => decide (users.find row.principalId = none)).map
    TokenRecord.principalId)

/-- `SELECT principal_id, name FROM users ORDER BY principal_id` -/
def principals (file : DatabaseFile) : Except String (List (PrincipalId × Str)) := do
  let users ← table .users file.users
  .ok ((users.rows.mergeSort fun row row' => decide (row.principalId.id ≤ row'.principalId.id)).map
    fun row => (row.principalId, row.name))

end DatabaseFile

-- ---------------------------------------------------------------------------
-- Statements
-- ---------------------------------------------------------------------------

/-- A migration under way: its connection, and how many statements, clock readings
and random draws it has behind it. -/
structure MigrationSession extends Connection DatabaseFile where
  statements : Nat
  readings : Nat
  draws : Nat

namespace MigrationSession

def start (file : DatabaseFile) : MigrationSession := ⟨.opened file, 0, 0, 0⟩

/-- The file as the migration sees it. -/
abbrev file (s : MigrationSession) : DatabaseFile := s.view

/-- The session after one more statement, with what that made of the connection. -/
def went (s : MigrationSession) (connection : Connection DatabaseFile) : MigrationSession :=
  { s with toConnection := connection, statements := s.statements + 1 }

/-- After a statement that wrote this file. -/
def after (s : MigrationSession) (file : DatabaseFile) : MigrationSession :=
  s.went (s.toConnection.write file)

end MigrationSession

/-- A step of a migration. -/
abbrev Migration := Txn World MigrationSession OpenError

namespace Migration

/-- A statement and the `?` on its result. -/
def statement {α : Type} (run : DatabaseFile → Except OpenError (α × DatabaseFile)) :
    Migration α := fun world s =>
  match world.failure s.statements with
  | some message => (.err (.Storage message), s)
  | none =>
    match run s.file with
    | .error error => (.err error, s)
    | .ok (a, file) => (.ok a, s.after file)

/-- SQLite's own refusal, as the error it becomes. -/
def storage {α : Type} : Except String α → Except OpenError α
  | .ok a => .ok a
  | .error message => .error (.Storage message)

/-- A statement that reads. -/
def query {α : Type} (read : DatabaseFile → Except String α) : Migration α :=
  statement fun file => (storage (read file)).map fun a => (a, file)

/-- A statement that changes the file. -/
def execute (change : DatabaseFile → Except String DatabaseFile) : Migration Unit :=
  statement fun file => (storage (change file)).map fun file => ((), file)

/-- `execute_batch`: its statements in order. -/
def executeBatch : List (DatabaseFile → Except String DatabaseFile) → Migration Unit
  | [] => pure ()
  | change :: changes => do
    execute change
    executeBatch changes

/-- A statement about the transaction itself. -/
def control (change : Connection DatabaseFile → Connection DatabaseFile) : Migration Unit :=
  fun world s =>
    match world.failure s.statements with
    | some message => (.err (.Storage message), s)
    | none => (.ok (), s.went (change s.toConnection))

/-- `begin_write`: the write lock, or an error. -/
def beginWrite : Migration Unit := control Connection.lock

/-- `transaction.commit()` -/
def commit : Migration Unit := control Connection.commit

/-- `unix_now` -/
def unixNow : Migration Int := fun world s =>
  (.ok (world.clock s.readings), { s with readings := s.readings + 1 })

/-- The organization id made of these random bytes. -/
def organizationIdOf (bytes : Nat → UInt8) : OrganizationId :=
  ⟨"org_".toList ++ hexOf organizationBytes bytes⟩

/-- `random_organization_id`, which panics when the random source is gone. -/
def randomOrganizationId : Migration OrganizationId :=
  Txn.expect fun world s =>
    (world.random s.draws).map fun bytes =>
      (organizationIdOf bytes, { s with draws := s.draws + 1 })

/-- `schema_version` -/
def schemaVersion : Migration Int := query fun file => .ok file.userVersion

/-- `table_exists` -/
def tableExists (name : TableName) : Migration Bool := query fun file => .ok (file.has name)

-- ---------------------------------------------------------------------------
-- The steps of a migration
-- ---------------------------------------------------------------------------

/-- `create_schema_v3` -/
def createSchemaV3 : Migration Unit :=
  executeBatch
    [(·.createUsersIfNotExists), (·.createOrganizationsIfNotExists),
      (·.createMembershipsIfNotExists), (·.createTokensIfNotExists),
      (·.createIndexIfNotExists "idx_tokens_principal" .tokens),
      (·.createIndexIfNotExists "idx_memberships_principal" .organizationMemberships),
      (·.setUserVersion 3)]

/-- `migrate_v2_to_v3` -/
def migrateV2ToV3 : Migration Unit :=
  executeBatch [(·.addExpiryColumn), (·.setUserVersion 3)]

/-- One pass of the loop over the principals: a personal organization, the
membership in it, and the tokens scoped to it. -/
def personalOrganization (principal : PrincipalId) (name : Str) : Migration Unit := do
  let organization ← randomOrganizationId
  let now ← unixNow
  execute (·.insertOrganization
    ⟨organization, "Personal organization for ".toList ++ name, now⟩)
  execute (·.insertMembership ⟨organization, principal, now⟩)
  execute (·.scopeTokens organization principal)

/-- `for (principal_id, name) in principals` -/
def personalOrganizations : List (PrincipalId × Str) → Migration Unit
  | [] => pure ()
  | (principal, name) :: principals => do
    personalOrganization principal name
    personalOrganizations principals

/-- `migrate_v1_to_v2` -/
def migrateV1ToV2 : Migration Unit := do
  let orphanedPrincipal ← query (·.orphanedPrincipal)
  if orphanedPrincipal.isSome then
    Txn.throw (.MigrationIntegrity "a legacy token references a missing principal")
  else
    executeBatch [(·.addOrganizationColumn), (·.createOrganizations), (·.createMemberships)]
    let principals ← query (·.principals)
    personalOrganizations principals
    executeBatch
      [(·.createTokensV2), (·.copyTokens), (·.dropTokens), (·.renameTokensV2),
        (·.createIndex "idx_tokens_principal" .tokens),
        (·.createIndex "idx_memberships_principal" .organizationMemberships),
        (·.setUserVersion 2)]

/-- The `match` on the tables of `initialize_unversioned_database`. -/
def initializeTables : Bool × Bool × Bool × Bool → Migration Unit
  | (false, false, false, false) => createSchemaV3
  | (true, true, false, false) => do
    migrateV1ToV2
    migrateV2ToV3
  | _ => Txn.throw (.MigrationIntegrity
      "unversioned database does not match the supported legacy identity schema")

/-- `initialize_unversioned_database` -/
def initializeUnversionedDatabase : Migration Unit := do
  let usersExists ← tableExists .users
  let tokensExists ← tableExists .tokens
  let organizationsExists ← tableExists .organizations
  let membershipsExist ← tableExists .organizationMemberships
  initializeTables (usersExists, tokensExists, organizationsExists, membershipsExist)

/-- `expiry_is_nullable`, and the `match` on it. -/
def checkExpiryIsNullable (file : DatabaseFile) : Except OpenError Unit :=
  match file.tokens.bind TokensTable.expiresAtUnix with
  | some .Nullable => .ok ()
  | some .NotNull => .error (.MigrationIntegrity
      "tokens.expires_at_unix must be nullable: NULL is how a non-expiring token is stored")
  | none => .error (.MigrationIntegrity "tokens table has no expires_at_unix column")

/-- `SELECT token_hash, ... FROM tokens LIMIT 0`, prepared. -/
def checkTokensColumns (file : DatabaseFile) : Except String Unit := do
  let tokens ← DatabaseFile.table .tokens file.tokens
  if tokens.organizationId = none then .error "no such column: organization_id"
  else if tokens.expiresAtUnix = none then .error "no such column: expires_at_unix"
  else .ok ()

/-- The five statements of `validate_v3_schema`. -/
def v3Checks : List (DatabaseFile → Except OpenError Unit) :=
  [fun file => storage ((DatabaseFile.table .users file.users).map fun _ => ()),
    fun file => storage ((DatabaseFile.table .organizations file.organizations).map fun _ => ()),
    fun file =>
      storage ((DatabaseFile.table .organizationMemberships file.memberships).map fun _ => ()),
    fun file => storage (checkTokensColumns file),
    checkExpiryIsNullable]

/-- The checks of `validate_v3_schema`, one statement each. -/
def validate : List (DatabaseFile → Except OpenError Unit) → Migration Unit
  | [] => pure ()
  | check :: checks => do
    statement fun file => (check file).map fun _ => ((), file)
    validate checks

/-- `validate_v3_schema` -/
def validateV3Schema : Migration Unit := validate v3Checks

/-- The `match schema_version(&transaction)?` of `initialize_schema`. -/
def migrateFrom (version : Int) : Migration Unit :=
  match version with
  | 0 => initializeUnversionedDatabase
  | 1 => do
    migrateV1ToV2
    migrateV2ToV3
  | 2 => migrateV2ToV3
  | 3 => validateV3Schema
  | found => Txn.throw (.UnsupportedSchemaVersion found identitySchemaVersion)

/-- The part of `initialize_schema` under the write lock. -/
def underLock : Migration Unit := do
  beginWrite
  let version ← schemaVersion
  migrateFrom version
  commit

/-- `initialize_schema` -/
def initializeSchema : Migration Unit := do
  let version ← schemaVersion
  if version = identitySchemaVersion then validateV3Schema else underLock

/-- Run a migration on a file nobody else has open. What it leaves is what was stored. -/
def run (migration : Migration Unit) (world : World) (file : DatabaseFile) :
    Outcome OpenError Unit × DatabaseFile :=
  let (result, session) := migration world (.start file)
  (result, session.stored)

end Migration

-- ---------------------------------------------------------------------------
-- Any number of processes
-- ---------------------------------------------------------------------------

/-- Where a process that opens the file stands. -/
inductive Phase
  | reading
  | validating (checks : List (DatabaseFile → Except OpenError Unit))
  | waiting
  | done (result : Outcome OpenError Unit)

/-- The next statement of a process outside the transaction, or its whole
transaction: where the process stands after it, and the file. -/
def Phase.advance (world : World) (file : DatabaseFile) : Phase → Phase × DatabaseFile
  | .reading =>
    match Migration.schemaVersion world (.start file) with
    | (.ok version, _) =>
      (if version = identitySchemaVersion then .validating Migration.v3Checks else .waiting, file)
    | (.err e, _) => (.done (.err e), file)
    | (.fault k, _) => (.done (.fault k), file)
  | .validating [] => (.done (.ok ()), file)
  | .validating (check :: checks) =>
    match (Migration.validate [check]).run world file with
    | (.ok (), _) => (.validating checks, file)
    | (result, _) => (.done result, file)
  | .waiting =>
    let (result, file) := Migration.underLock.run world file
    (.done result, file)
  | .done result => (.done result, file)

/-- A process that has not returned. -/
def Phase.Running : Phase → Prop
  | .done _ => False
  | _ => True

/-- The shared file, and the processes that open it. -/
structure Opening where
  file : DatabaseFile
  phases : List Phase

/-- Any number of processes open a file. A step is one of them going on, in
surroundings of its own. -/
def opening (file : DatabaseFile) : Machine Opening (Nat × World) Unit where
  start s := s.file = file ∧ ∀ phase ∈ s.phases, phase = .reading
  step s action _ s' :=
    ∃ phase, s.phases[action.1]? = some phase ∧ phase.Running ∧
      s' = ⟨(phase.advance action.2 s.file).2,
        s.phases.set action.1 (phase.advance action.2 s.file).1⟩

end CamelidEnterprise.Identity

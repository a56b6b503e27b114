import Mathlib.Algebra.Ring.Int.Defs
import CamelidEnterprise.Engine.Error
import CamelidEnterprise.Foundation.Machine
import CamelidEnterprise.Foundation.Table
import CamelidEnterprise.Foundation.Transaction

/-!
# Camelid Enterprise — the identity store

`crates/identity/src/lib.rs`: users, organizations, memberships and bearer tokens
in one SQLite database that a gateway and the operator's commands share. The four
tables with their primary keys are `Table`s, and the foreign keys are fields of
`Database`: a token row without its membership cannot be built.

An operation is one statement, or one transaction that takes the write lock first
(`begin_write`) and stores what it did when it commits; so it is one step of the
shared database. Each statement may fail, each call of `unix_now` has a reading of
its own, and the operation may return an error of its own. A transaction that is
dropped is rolled back: what a call leaves is what its connection has stored.

What is assumed, and what is left out:

* `hashToken` stands for `hash_token`, the hexadecimal SHA-256 of a token;
* a process holds its connection for the whole of a call, and SQLite lets one connection
  write at a time, so that calls do not interleave;
* the listings of users and organizations, and the texts of the errors.
-/

namespace CamelidEnterprise.Identity

open Foundation

/-- `PrincipalId` -/
structure PrincipalId where
  id : Str
deriving DecidableEq, Repr

/-- `OrganizationId` -/
structure OrganizationId where
  id : Str
deriving DecidableEq, Repr

/-- `AuthenticatedContext` -/
structure AuthenticatedContext where
  principalId : PrincipalId
  organizationId : OrganizationId
deriving DecidableEq, Repr

/-- `IdentityError`, without the errors of opening a database. -/
inductive IdentityError
  | InvalidToken
  | ExpiredToken
  | UnknownPrincipal
  | UnknownOrganization
  | NoOrganizationMembership
  | AmbiguousOrganization
  | NotOrganizationMember
  | Storage (message : String)
deriving DecidableEq, Repr

-- ---------------------------------------------------------------------------
-- Tables
-- ---------------------------------------------------------------------------

/-- A row of `users`. -/
structure UserRow where
  principalId : PrincipalId
  name : Str
  createdAtUnix : Int

/-- A row of `organizations`. -/
structure OrganizationRow where
  organizationId : OrganizationId
  name : Str
  createdAtUnix : Int

/-- A row of `organization_memberships`. -/
structure MembershipRow where
  organizationId : OrganizationId
  principalId : PrincipalId
  createdAtUnix : Int

/-- `PRIMARY KEY (organization_id, principal_id)` -/
def MembershipRow.key (row : MembershipRow) : OrganizationId × PrincipalId :=
  (row.organizationId, row.principalId)

/-- A row of `tokens`. -/
structure TokenRow where
  tokenHash : Str
  principalId : PrincipalId
  organizationId : OrganizationId
  createdAtUnix : Int
  expiresAtUnix : Option Int
deriving DecidableEq

/-- The membership a token hangs off. -/
def TokenRow.membership (row : TokenRow) : OrganizationId × PrincipalId :=
  (row.organizationId, row.principalId)

/-- The tables `create_schema_v3` creates, with `foreign_keys = ON`. -/
structure Database where
  users : Table UserRow.principalId
  organizations : Table OrganizationRow.organizationId
  memberships : Table MembershipRow.key
  tokens : Table TokenRow.tokenHash
  membership_organization : ∀ row ∈ memberships.rows, organizations.find row.organizationId ≠ none
  membership_user : ∀ row ∈ memberships.rows, users.find row.principalId ≠ none
  token_membership : ∀ row ∈ tokens.rows, memberships.find row.membership ≠ none

def Database.empty : Database where
  users := .empty
  organizations := .empty
  memberships := .empty
  tokens := .empty
  membership_organization := by simp
  membership_user := by simp
  token_membership := by simp

/-- SQLite's message for a key that is taken. -/
def uniqueFailed (columns : String) : String := "UNIQUE constraint failed: " ++ columns

/-- SQLite's message for a row that references nothing. -/
def foreignKeyFailed : String := "FOREIGN KEY constraint failed"

/-- `INSERT INTO users` -/
def Database.insertUser (db : Database) (row : UserRow) : Except String Database :=
  if hfree : db.users.find row.principalId = none then
    .ok { db with
      users := db.users.insertNew row hfree
      membership_user := fun m hm => Table.find_insertNew_ne_none (db.membership_user m hm) }
  else
    .error (uniqueFailed "users.principal_id")

/-- `INSERT INTO organizations` -/
def Database.insertOrganization (db : Database) (row : OrganizationRow) : Except String Database :=
  if hfree : db.organizations.find row.organizationId = none then
    .ok { db with
      organizations := db.organizations.insertNew row hfree
      membership_organization := fun m hm =>
        Table.find_insertNew_ne_none (db.membership_organization m hm) }
  else
    .error (uniqueFailed "organizations.organization_id")

/-- `INSERT INTO organization_memberships` -/
def Database.insertMembership (db : Database) (row : MembershipRow) : Except String Database :=
  if hfree : db.memberships.find row.key = none then
    if horganization : db.organizations.find row.organizationId = none then
      .error foreignKeyFailed
    else if huser : db.users.find row.principalId = none then
      .error foreignKeyFailed
    else
      .ok { db with
        memberships := db.memberships.insertNew row hfree
        membership_organization := Table.forall_mem_insertNew db.membership_organization horganization
        membership_user := Table.forall_mem_insertNew db.membership_user huser
        token_membership := fun t ht => Table.find_insertNew_ne_none (db.token_membership t ht) }
  else
    .error (uniqueFailed
      "organization_memberships.organization_id, organization_memberships.principal_id")

/-- `INSERT OR IGNORE INTO organization_memberships` -/
def Database.insertMembershipOrIgnore (db : Database) (row : MembershipRow) :
    Except String Database :=
  if db.memberships.find row.key = none then db.insertMembership row else .ok db

/-- `INSERT INTO tokens` -/
def Database.insertToken (db : Database) (row : TokenRow) : Except String Database :=
  if hfree : db.tokens.find row.tokenHash = none then
    if hmembership : db.memberships.find row.membership = none then
      .error foreignKeyFailed
    else
      .ok { db with
        tokens := db.tokens.insertNew row hfree
        token_membership := Table.forall_mem_insertNew db.token_membership hmembership }
  else
    .error (uniqueFailed "tokens.token_hash")

/-- `DELETE FROM tokens WHERE token_hash = ?1`: the rows deleted, and the rest. -/
def Database.deleteToken (db : Database) (tokenHash : Str) : Nat × Database :=
  (db.tokens.count fun row => decide (row.tokenHash = tokenHash),
    { db with
      tokens := db.tokens.delete fun row => decide (row.tokenHash = tokenHash)
      token_membership := fun row hrow => db.token_membership row (Table.mem_delete.mp hrow).1 })

/-- `DELETE FROM organization_memberships WHERE principal_id = ?1 AND
organization_id = ?2`: the rows deleted, and the rest. The tokens of the membership
go with it: `ON DELETE CASCADE`. -/
def Database.deleteMembership (db : Database) (principal : PrincipalId)
    (organization : OrganizationId) : Nat × Database :=
  (db.memberships.count fun row => decide (row.key = (organization, principal)),
    { db with
      memberships := db.memberships.delete fun row => decide (row.key = (organization, principal))
      tokens := db.tokens.delete fun row => decide (row.membership = (organization, principal))
      membership_organization := fun row hrow =>
        db.membership_organization row (Table.mem_delete.mp hrow).1
      membership_user := fun row hrow => db.membership_user row (Table.mem_delete.mp hrow).1
      token_membership := fun row hrow => by
        obtain ⟨hmem, hother⟩ := Table.mem_delete.mp hrow
        exact Table.find_delete_key_ne_none (by simpa using hother)
          (db.token_membership row hmem) })

/-- `SELECT organization_id FROM organization_memberships WHERE principal_id = ?1` -/
def Database.organizationsOf (db : Database) (principal : PrincipalId) : List OrganizationId :=
  (db.memberships.rows.filter fun row => decide (row.principalId = principal)).map
    MembershipRow.organizationId

/-- A `SELECT 1` on a key. -/
def Database.isUser (db : Database) (principal : PrincipalId) : Bool :=
  (db.users.find principal).isSome

def Database.isOrganization (db : Database) (organization : OrganizationId) : Bool :=
  (db.organizations.find organization).isSome

def Database.isMember (db : Database) (principal : PrincipalId) (organization : OrganizationId) :
    Bool :=
  (db.memberships.find (organization, principal)).isSome

-- ---------------------------------------------------------------------------
-- Statements, the clock, random draws
-- ---------------------------------------------------------------------------

/-- What an operation meets outside the database: the readings `unix_now` takes,
one after the other; the statements that fail, with SQLite's message; and the bytes
the operating system's random source fills each buffer with, unless it is gone. -/
structure World where
  clock : Nat → Int
  failure : Nat → Option String
  random : Nat → Option (Nat → UInt8)

/-- An operation under way: its connection, and how many statements, clock readings
and random draws it has behind it. -/
structure Session extends Connection Database where
  statements : Nat
  readings : Nat
  draws : Nat

def Session.start (db : Database) : Session := ⟨.opened db, 0, 0, 0⟩

/-- The database as the operation sees it. -/
abbrev Session.db (s : Session) : Database := s.view

/-- The session after one more statement, with what that made of the connection. -/
def Session.went (s : Session) (connection : Connection Database) : Session :=
  { s with toConnection := connection, statements := s.statements + 1 }

/-- After a statement that wrote this database. -/
def Session.after (s : Session) (db : Database) : Session := s.went (s.toConnection.write db)

/-- A step of an operation. -/
abbrev Tx := Txn World Session IdentityError

/-- A statement and the `?` on its result. -/
def statement {α : Type} (run : Database → Except String (α × Database)) : Tx α := fun world s =>
  match world.failure s.statements with
  | some message => (.err (.Storage message), s)
  | none =>
    match run s.db with
    | .error message => (.err (.Storage message), s)
    | .ok (a, db) => (.ok a, s.after db)

/-- A `SELECT`. -/
def query {α : Type} (read : Database → α) : Tx α := statement fun db => .ok (read db, db)

/-- An `INSERT`. -/
def insert (change : Database → Except String Database) : Tx Unit :=
  statement fun db => (change db).map fun db' => ((), db')

/-- A `DELETE`, with the number of rows it reports. -/
def delete (change : Database → Nat × Database) : Tx Nat := statement fun db => .ok (change db)

/-- A statement about the transaction itself. -/
def control (change : Connection Database → Connection Database) : Tx Unit := fun world s =>
  match world.failure s.statements with
  | some message => (.err (.Storage message), s)
  | none => (.ok (), s.went (change s.toConnection))

/-- `begin_write`: the write lock, or an error. -/
def beginWrite : Tx Unit := control Connection.lock

/-- `transaction.commit()` -/
def commit : Tx Unit := control Connection.commit

/-- `unix_now` -/
def unixNow : Tx Int := fun world s =>
  (.ok (world.clock s.readings), { s with readings := s.readings + 1 })

/-- `TOKEN_BYTES` -/
def tokenBytes : Nat := 32

/-- `PRINCIPAL_BYTES` -/
def principalBytes : Nat := 16

/-- `ORGANIZATION_BYTES` -/
def organizationBytes : Nat := 16

/-- `TOKEN_PREFIX` -/
def tokenPrefix : Str := "cme_".toList

/-- `format!("{byte:02x}")` -/
def hexByte (byte : UInt8) : Str :=
  [Nat.digitChar (byte.toNat / 16), Nat.digitChar (byte.toNat % 16)]

/-- `to_hex` -/
def toHex (bytes : List UInt8) : Str := bytes.flatMap hexByte

/-- The bytes of a filled buffer, in hexadecimal. -/
def hexOf (lenBytes : Nat) (bytes : Nat → UInt8) : Str := toHex ((List.range lenBytes).map bytes)

/-- `random_hex`, which panics when the random source is gone. -/
def randomHex (lenBytes : Nat) : Tx Str :=
  Txn.expect fun world s =>
    (world.random s.draws).map fun bytes => (hexOf lenBytes bytes, { s with draws := s.draws + 1 })

/-- `random_id("usr")` -/
def randomPrincipalId : Tx PrincipalId := do
  let hex ← randomHex principalBytes
  return ⟨"usr_".toList ++ hex⟩

/-- `random_organization_id` -/
def randomOrganizationId : Tx OrganizationId := do
  let hex ← randomHex organizationBytes
  return ⟨"org_".toList ++ hex⟩

-- ---------------------------------------------------------------------------
-- Lifetimes
-- ---------------------------------------------------------------------------

/-- An `i64` that saturates. -/
def saturate (n : Int) : Int := max (-2 ^ 63) (min (2 ^ 63 - 1) n)

/-- `TokenLifetime` -/
inductive TokenLifetime
  | Never
  | Until (instant : Int)
deriving DecidableEq, Repr

/-- `TokenLifetime::expires_at` -/
def TokenLifetime.expiresAt : TokenLifetime → Option Int
  | .Never => none
  | .Until instant => some instant

/-- `RotationLifetime` -/
inductive RotationLifetime
  | Preserved
  | Replaced (lifetime : TokenLifetime)
deriving DecidableEq, Repr

/-- `Credential` -/
structure Credential where
  principalId : PrincipalId
  organizationId : OrganizationId
  createdAtUnix : Int
  expiresAtUnix : Option Int
deriving DecidableEq, Repr

/-- A token with this expiry is refused at `now`. -/
def expired (expiresAtUnix : Option Int) (now : Int) : Bool :=
  match expiresAtUnix with
  | some expiresAt => decide (expiresAt ≤ now)
  | none => false

/-- `Credential::still_valid` -/
def Credential.stillValid (credential : Credential) (now : Int) : Tx Credential :=
  if expired credential.expiresAtUnix now then Txn.throw .ExpiredToken else pure credential

/-- `Credential::issued_lifetime` -/
def Credential.issuedLifetime (credential : Credential) : Tx TokenLifetime :=
  match credential.expiresAtUnix with
  | none => pure .Never
  | some expiresAt => do
    let now ← unixNow
    return .Until (saturate (now + saturate (expiresAt - credential.createdAtUnix)))

-- ---------------------------------------------------------------------------
-- Operations
-- ---------------------------------------------------------------------------

/-- `create_user` -/
def createUser (name : Str) : Tx PrincipalId := do
  let principal ← randomPrincipalId
  let organization ← randomOrganizationId
  beginWrite
  let now ← unixNow
  insert (·.insertUser ⟨principal, name, now⟩)
  insert (·.insertOrganization ⟨organization, "Personal organization for ".toList ++ name, now⟩)
  insert (·.insertMembership ⟨organization, principal, now⟩)
  commit
  return principal

/-- `create_organization` -/
def createOrganization (name : Str) : Tx OrganizationId := do
  let organization ← randomOrganizationId
  let now ← unixNow
  insert (·.insertOrganization ⟨organization, name, now⟩)
  return organization

/-- `require_organization` -/
def requireOrganization (organization : OrganizationId) : Tx Unit := do
  let found ← query (·.isOrganization organization)
  if found then return () else Txn.throw .UnknownOrganization

/-- `create_user_in_organization` -/
def createUserInOrganization (name : Str) (organization : OrganizationId) : Tx PrincipalId := do
  let principal ← randomPrincipalId
  beginWrite
  requireOrganization organization
  let now ← unixNow
  insert (·.insertUser ⟨principal, name, now⟩)
  insert (·.insertMembership ⟨organization, principal, now⟩)
  commit
  return principal

/-- `if !principal_exists(..)? { return Err(UnknownPrincipal) }` -/
def requirePrincipal (principal : PrincipalId) : Tx Unit := do
  let found ← query (·.isUser principal)
  if found then return () else Txn.throw .UnknownPrincipal

/-- `add_principal_to_organization` -/
def addPrincipalToOrganization (principal : PrincipalId) (organization : OrganizationId) :
    Tx Unit := do
  beginWrite
  requireOrganization organization
  requirePrincipal principal
  let now ← unixNow
  insert (·.insertMembershipOrIgnore ⟨organization, principal, now⟩)
  commit

/-- `remove_principal_from_organization` -/
def removePrincipalFromOrganization (principal : PrincipalId) (organization : OrganizationId) :
    Tx Unit := do
  beginWrite
  requirePrincipal principal
  requireOrganization organization
  let removed ← delete (·.deleteMembership principal organization)
  if removed = 0 then Txn.throw .NotOrganizationMember else commit

section Tokens

variable (hashToken : Str → Str)

/-- `issue_token_in_transaction` -/
def issueTokenInTransaction (principal : PrincipalId) (organization : OrganizationId)
    (lifetime : TokenLifetime) : Tx Str := do
  requirePrincipal principal
  requireOrganization organization
  let isMember ← query (·.isMember principal organization)
  if isMember then
    let hex ← randomHex tokenBytes
    let token := tokenPrefix ++ hex
    let now ← unixNow
    insert (·.insertToken ⟨hashToken token, principal, organization, now, lifetime.expiresAt⟩)
    return token
  else
    Txn.throw .NotOrganizationMember

/-- The organization `issue_token` issues for: the principal's only one. -/
def onlyOrganization (principal : PrincipalId) (organizations : List OrganizationId) :
    Tx OrganizationId :=
  match organizations with
  | [organization] => pure organization
  | [] => do
    let found ← query (·.isUser principal)
    if found then Txn.throw .NoOrganizationMembership else Txn.throw .UnknownPrincipal
  | _ => Txn.throw .AmbiguousOrganization

/-- `issue_token` -/
def issueToken (principal : PrincipalId) (lifetime : TokenLifetime) : Tx Str := do
  beginWrite
  let organizations ← query (·.organizationsOf principal)
  let organization ← onlyOrganization principal organizations
  let token ← issueTokenInTransaction hashToken principal organization lifetime
  commit
  return token

/-- `issue_token_for_organization` -/
def issueTokenForOrganization (principal : PrincipalId) (organization : OrganizationId)
    (lifetime : TokenLifetime) : Tx Str := do
  beginWrite
  let token ← issueTokenInTransaction hashToken principal organization lifetime
  commit
  return token

/-- The join of `lookup_credential`: a token's row and the membership it names. -/
def Database.credential (db : Database) (token : Str) : Option Credential := do
  let row ← db.tokens.find (hashToken token)
  let _ ← db.memberships.find row.membership
  return ⟨row.principalId, row.organizationId, row.createdAtUnix, row.expiresAtUnix⟩

/-- `lookup_credential` -/
def lookupCredential (token : Str) : Tx Credential := do
  let found ← query (·.credential hashToken token)
  Txn.okOr .InvalidToken found

/-- The lifetime a rotation gives the replacement. -/
def RotationLifetime.resolve (lifetime : RotationLifetime) (credential : Credential) :
    Tx TokenLifetime :=
  match lifetime with
  | .Replaced lifetime => pure lifetime
  | .Preserved => credential.issuedLifetime

/-- `rotate_token` -/
def rotateToken (token : Str) (lifetime : RotationLifetime) : Tx Str := do
  beginWrite
  let found ← lookupCredential hashToken token
  let now ← unixNow
  let credential ← found.stillValid now
  let lifetime ← lifetime.resolve credential
  let replacement ← issueTokenInTransaction hashToken credential.principalId
    credential.organizationId lifetime
  let retired ← delete (·.deleteToken (hashToken token))
  if retired ≠ 1 then
    Txn.throw (.Storage s!"rotation retired {retired} tokens instead of exactly 1")
  else
    commit
    return replacement

/-- `resolve_context` -/
def resolveContext (token : Str) : Tx AuthenticatedContext := do
  let found ← lookupCredential hashToken token
  let now ← unixNow
  let credential ← found.stillValid now
  return ⟨credential.principalId, credential.organizationId⟩

/-- `revoke_token` -/
def revokeToken (token : Str) : Tx Unit := do
  let _ ← delete (·.deleteToken (hashToken token))
  return ()

end Tokens

-- ---------------------------------------------------------------------------
-- Any process, in any order
-- ---------------------------------------------------------------------------

/-- A call of the store. -/
inductive Operation
  | createUser (name : Str)
  | createOrganization (name : Str)
  | createUserInOrganization (name : Str) (organization : OrganizationId)
  | addPrincipalToOrganization (principal : PrincipalId) (organization : OrganizationId)
  | removePrincipalFromOrganization (principal : PrincipalId) (organization : OrganizationId)
  | issueToken (principal : PrincipalId) (lifetime : TokenLifetime)
  | issueTokenForOrganization (principal : PrincipalId) (organization : OrganizationId)
      (lifetime : TokenLifetime)
  | rotateToken (token : Str) (lifetime : RotationLifetime)
  | revokeToken (token : Str)
  | resolveContext (token : Str)

/-- What a call returns. -/
inductive Answer
  | done
  | principal (principal : PrincipalId)
  | organization (organization : OrganizationId)
  | token (token : Str)
  | context (context : AuthenticatedContext)
deriving DecidableEq, Repr

/-- The code of a call. -/
def Operation.code (hashToken : Str → Str) : Operation → Tx Answer
  | .createUser name => do return .principal (← Identity.createUser name)
  | .createOrganization name => do return .organization (← Identity.createOrganization name)
  | .createUserInOrganization name organization => do
    return .principal (← Identity.createUserInOrganization name organization)
  | .addPrincipalToOrganization principal organization => do
    Identity.addPrincipalToOrganization principal organization
    return .done
  | .removePrincipalFromOrganization principal organization => do
    Identity.removePrincipalFromOrganization principal organization
    return .done
  | .issueToken principal lifetime => do
    return .token (← Identity.issueToken hashToken principal lifetime)
  | .issueTokenForOrganization principal organization lifetime => do
    return .token (← Identity.issueTokenForOrganization hashToken principal organization lifetime)
  | .rotateToken token lifetime => do
    return .token (← Identity.rotateToken hashToken token lifetime)
  | .revokeToken token => do
    Identity.revokeToken hashToken token
    return .done
  | .resolveContext token => do return .context (← Identity.resolveContext hashToken token)

/-- A call in its surroundings. -/
structure Call where
  operation : Operation
  world : World

/-- What a call returns, and the database after it: what was stored. -/
def Call.run (call : Call) (hashToken : Str → Str) (db : Database) :
    Outcome IdentityError Answer × Database :=
  let (result, session) := call.operation.code hashToken call.world (Session.start db)
  (result, session.stored)

/-- A new database and every process that opens it. -/
def store (hashToken : Str → Str) : Machine Database Call (Outcome IdentityError Answer) where
  start db := db = .empty
  step db call result db' := call.run hashToken db = (result, db')

end CamelidEnterprise.Identity

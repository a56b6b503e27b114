import CamelidEnterprise.Identity.Migration
import CamelidEnterprise.Identity.StoreRun

/-!
# Camelid Enterprise — what opening an identity database guarantees

`Satisfies` says which files of version 0, 1 and 2 keep their schema, `Stores`
when a file of version 3 holds the database of `Identity.Store`, and `Migrated`
relates the two: the same users and tokens, no expiry, and an organization of
their own for principals that had none.

* `Healthy`, `excuse` — a migration may stop early only where a statement failed,
  the random source was gone, or two drawn organization ids agreed;
* `migrateV1ToV2_settles`, `migrateV2ToV3_settles` — the two steps of the chain;
  the loop over the principals carries `Assigned`;
* `initializeSchema_settles` — a process on its own;
* `Opened`, `advance_advanced` — the invariant of any number of processes, and
  what a step of one of them does;
* `identity_migration` — both, as the callers of `open` rely on them.
-/

namespace CamelidEnterprise.Identity

open Foundation

-- ---------------------------------------------------------------------------
-- Files of the three schemas
-- ---------------------------------------------------------------------------

/-- A file that satisfies the schema of its version. Version 0 is a new file, or
one from before versions were kept, with the tables of version 1. -/
inductive Satisfies : DatabaseFile → Prop
  | new : Satisfies ⟨0, none, none, none, none, none, []⟩
  | legacy {version : Int} {users : Table UserRow.principalId}
      {records : Table TokenRecord.tokenHash} {indexes : List (String × TableName)}
      (hversion : version = 0 ∨ version = 1)
      (hprincipals : ∀ row ∈ records.rows, users.find row.principalId ≠ none)
      (hindexes : ∀ index ∈ indexes, index = ("idx_tokens_principal", .tokens)) :
      Satisfies ⟨version, some users, none, none, some ⟨none, none, false, records⟩, none, indexes⟩
  | organized {users : Table UserRow.principalId}
      {organizations : Table OrganizationRow.organizationId}
      {memberships : Table MembershipRow.key} {records : Table TokenRecord.tokenHash}
      {indexes : List (String × TableName)}
      (horganization : ∀ row ∈ memberships.rows, organizations.find row.organizationId ≠ none)
      (huser : ∀ row ∈ memberships.rows, users.find row.principalId ≠ none)
      (hmembership : ∀ row ∈ records.rows, ∃ organization,
        row.organizationId = some organization ∧
          memberships.find (organization, row.principalId) ≠ none) :
      Satisfies ⟨2, some users, some organizations, some memberships,
        some ⟨some .NotNull, none, true, records⟩, none, indexes⟩

/-- None of them is of version 3. -/
theorem Satisfies.version_lt {file : DatabaseFile} (h : Satisfies file) :
    file.userVersion < identitySchemaVersion := by
  cases h with
  | new => decide
  | legacy hversion =>
    rcases hversion with rfl | rfl
    · show (0 : Int) < 3
      decide
    · show (1 : Int) < 3
      decide
  | organized =>
    show (2 : Int) < 3
    decide

/-- The row of a token, at any version. -/
def DatabaseFile.record (file : DatabaseFile) (tokenHash : Str) : Option TokenRecord :=
  file.tokens.bind fun tokens => tokens.records.find tokenHash

/-- A row of version 3 in the file. -/
def TokenRow.record (row : TokenRow) : TokenRecord :=
  ⟨row.tokenHash, row.principalId, some row.organizationId, row.createdAtUnix, row.expiresAtUnix⟩

/-- The file has schema version 3, and holds this database. -/
structure Stores (file : DatabaseFile) (db : Database) : Prop where
  version : file.userVersion = identitySchemaVersion
  users : file.users = some db.users
  organizations : file.organizations = some db.organizations
  memberships : file.memberships = some db.memberships
  tokens : ∃ records, file.tokens = some ⟨some .NotNull, some .Nullable, true, records⟩ ∧
    records.rows = db.tokens.rows.map TokenRow.record
  tokensV2 : file.tokensV2 = none

/-- The database has what the file had: its users, and every token with its
principal and no expiry. Before version 2 each principal gets an organization
nobody else is in; from version 2 on the organizations stay what they were. -/
structure Preserves (file : DatabaseFile) (db : Database) : Prop where
  users : file.users.getD .empty = db.users
  tokens : ∀ (hashToken : Str → Str) token,
    (db.credential hashToken token).map (fun c => (c.principalId, c.createdAtUnix, c.expiresAtUnix)) =
      (file.record (hashToken token)).map fun record =>
        (record.principalId, record.createdAtUnix, none)
  personal : file.userVersion < 2 → ∀ principal, db.isUser principal = true →
    ∃ organization, db.organizationsOf principal = [organization] ∧
      ∀ other, organization ∈ db.organizationsOf other → other = principal
  scope : file.userVersion = 2 →
    file.organizations = some db.organizations ∧ file.memberships = some db.memberships ∧
      ∀ (hashToken : Str → Str) token,
        (db.credential hashToken token).map Credential.organizationId =
          (file.record (hashToken token)).bind TokenRecord.organizationId

/-- The second file is the first, migrated. -/
def Migrated (file file' : DatabaseFile) : Prop := ∃ db, Stores file' db ∧ Preserves file db

-- ---------------------------------------------------------------------------
-- Rules of the statements
-- ---------------------------------------------------------------------------

/-- Surroundings in which nothing fails: no statement does, the random source is
there for as many draws, and no two of them make one organization id. -/
structure Healthy (draws : Nat) (world : World) : Prop where
  failure : ∀ n, world.failure n = none
  random : ∀ n < draws, ∃ bytes, world.random n = some bytes
  distinct : ∀ {m n bytes bytes'}, m < n → n < draws → world.random m = some bytes →
    world.random n = some bytes' →
    Migration.organizationIdOf bytes ≠ Migration.organizationIdOf bytes'

/-- The draws a migration makes: an organization for each user. -/
def DatabaseFile.userCount (file : DatabaseFile) : Nat := (file.users.getD .empty).rows.length

/-- A migration stops early with SQLite's message or a panic, and never does in
healthy surroundings. -/
def excuse (draws : Nat) (world : World) : OpenError ⊕ Fault → Prop
  | .inl (.Storage _) => ¬Healthy draws world
  | .inr .panic => ¬Healthy draws world
  | _ => False

namespace Migration

variable {limit : Nat} {world : World} {s : MigrationSession}

theorem statement_settles {α : Type} {run : DatabaseFile → Except OpenError (α × DatabaseFile)}
    {a : α} {file : DatabaseFile} (h : run s.file = .ok (a, file)) :
    Txn.Settles (excuse limit world) (statement run) world s fun b t => b = a ∧ t = s.after file := by
  unfold Txn.Settles statement
  cases hfailure : world.failure s.statements with
  | none =>
    rw [h]
    exact ⟨rfl, rfl⟩
  | some message =>
    intro hhealthy
    rw [hhealthy.failure] at hfailure
    cases hfailure

theorem query_settles {α : Type} {read : DatabaseFile → Except String α} {a : α}
    (h : read s.file = .ok a) :
    Txn.Settles (excuse limit world) (query read) world s fun b t => b = a ∧ t = s.after s.file := by
  refine statement_settles ?_
  rw [h]
  rfl

/-- A read that SQLite cannot refuse. -/
theorem look_settles {α : Type} (read : DatabaseFile → α) :
    Txn.Settles (excuse limit world) (query fun file => .ok (read file)) world s fun a t =>
      a = read s.file ∧ t = s.after s.file :=
  query_settles rfl

theorem execute_settles {change : DatabaseFile → Except String DatabaseFile} {file : DatabaseFile}
    (h : change s.file = .ok file) :
    Txn.Settles (excuse limit world) (execute change) world s fun _ t => t = s.after file := by
  have hrun : (fun file => (storage (change file)).map fun file => ((), file)) s.file =
      .ok ((), file) := by
    dsimp only
    rw [h]
    rfl
  exact (statement_settles hrun).mono fun _ _ ht => ht.2

/-- A statement SQLite refuses settles where the refusal has an excuse. -/
theorem execute_refused {change : DatabaseFile → Except String DatabaseFile}
    (h : ∃ message, change s.file = .error message) (hexcuse : ¬Healthy limit world) :
    Txn.Settles (excuse limit world) (execute change) world s fun _ _ => False := by
  obtain ⟨message, h⟩ := h
  unfold Txn.Settles execute statement
  cases hfailure : world.failure s.statements with
  | none =>
    dsimp only
    rw [h]
    exact hexcuse
  | some message => exact hexcuse

/-- The file a batch leaves, when all of it goes through. -/
def batch : List (DatabaseFile → Except String DatabaseFile) → DatabaseFile →
    Except String DatabaseFile
  | [], file => .ok file
  | change :: changes, file => change file >>= batch changes

theorem executeBatch_settles {changes : List (DatabaseFile → Except String DatabaseFile)}
    {file : DatabaseFile} (h : batch changes s.file = .ok file) :
    Txn.Settles (excuse limit world) (executeBatch changes) world s fun _ t =>
      t.file = file ∧ t.draws = s.draws := by
  induction changes generalizing s with
  | nil => exact Txn.Settles.pure ⟨Except.ok.inj h, rfl⟩
  | cons change changes ih =>
    rw [batch] at h
    cases hchange : change s.file with
    | error message =>
      rw [hchange] at h
      cases h
    | ok mid =>
      rw [hchange] at h
      refine (execute_settles hchange).bind ?_
      rintro - t rfl
      have hrest : batch changes (s.after mid).file = .ok file := h
      exact ih hrest

theorem unixNow_settles :
    Txn.Settles (excuse limit world) unixNow world s fun _ t => t = { s with readings := s.readings + 1 } :=
  rfl

theorem randomOrganizationId_settles (hdraws : s.draws < limit) :
    Txn.Settles (excuse limit world) randomOrganizationId world s fun organization t =>
      ∃ bytes, world.random s.draws = some bytes ∧ organization = organizationIdOf bytes ∧
        t = { s with draws := s.draws + 1 } := by
  unfold Txn.Settles randomOrganizationId Txn.expect
  cases hrandom : world.random s.draws with
  | some bytes =>
    dsimp only
    rw [hrandom]
    exact ⟨bytes, rfl, rfl, rfl⟩
  | none =>
    dsimp only
    rw [hrandom]
    intro hhealthy
    obtain ⟨bytes, hbytes⟩ := hhealthy.random s.draws hdraws
    rw [hrandom] at hbytes
    cases hbytes

-- ---------------------------------------------------------------------------
-- From version 1 to version 2
-- ---------------------------------------------------------------------------

/-- A legacy token, scoped to the organization its principal has so far. -/
def scope (memberships : Table MembershipRow.key) (row : TokenRecord) : TokenRecord :=
  { row with
    organizationId := (memberships.rows.find? fun m => decide (m.principalId = row.principalId)).map
      MembershipRow.organizationId }

/-- The file while the principals get their organizations. -/
def widened (version : Int) (users : Table UserRow.principalId)
    (organizations : Table OrganizationRow.organizationId) (memberships : Table MembershipRow.key)
    (records : Table TokenRecord.tokenHash) (indexes : List (String × TableName)) : DatabaseFile :=
  ⟨version, some users, some organizations, some memberships,
    some ⟨some .Nullable, none, false, records⟩, none, indexes⟩

/-- These principals have one organization each, of their own, with an id that was
drawn for it. -/
structure Assigned (world : World) (users : Table UserRow.principalId) (principals : List PrincipalId)
    (organizations : Table OrganizationRow.organizationId) (memberships : Table MembershipRow.key)
    (draws : Nat) : Prop where
  principals : memberships.rows.map MembershipRow.principalId = principals
  own : (memberships.rows.map MembershipRow.organizationId).Nodup
  organization : ∀ row ∈ memberships.rows, organizations.find row.organizationId ≠ none
  user : ∀ row ∈ memberships.rows, users.find row.principalId ≠ none
  drawn : ∀ row ∈ organizations.rows, ∃ n < draws, ∃ bytes, world.random n = some bytes ∧
    organizationIdOf bytes = row.organizationId

/-- The loop has these principals behind it. -/
def Behind (world : World) (version : Int) (users : Table UserRow.principalId)
    (records : Table TokenRecord.tokenHash) (indexes : List (String × TableName))
    (principals : List PrincipalId) (s : MigrationSession) : Prop :=
  ∃ organizations memberships current,
    s.file = widened version users organizations memberships current indexes ∧
    current.rows = records.rows.map (scope memberships) ∧
    Assigned world users principals organizations memberships s.draws ∧
    s.draws = principals.length

/-- A membership for a principal that has none scopes the principal's tokens and
no others. -/
theorem scope_insertNew {memberships : Table MembershipRow.key} {row : MembershipRow}
    (hfree : memberships.find row.key = none)
    (hnone : ∀ m ∈ memberships.rows, m.principalId ≠ row.principalId) (record : TokenRecord) :
    scope (memberships.insertNew row hfree) record =
      if record.principalId = row.principalId then
        { scope memberships record with organizationId := some row.organizationId }
      else scope memberships record := by
  have hfind : (memberships.insertNew row hfree).rows.find?
        (fun m => decide (m.principalId = record.principalId)) =
      (memberships.rows.find? fun m => decide (m.principalId = record.principalId)).or
        ([row].find? fun m => decide (m.principalId = record.principalId)) :=
    List.find?_append
  by_cases hsame : record.principalId = row.principalId
  · have hold : memberships.rows.find? (fun m => decide (m.principalId = record.principalId)) =
        none := by
      rw [List.find?_eq_none]
      intro m hm
      rw [hsame]
      simpa using hnone m hm
    have hpick : [row].find? (fun m => decide (m.principalId = record.principalId)) = some row := by
      simp [hsame]
    rw [if_pos hsame, scope, hfind, hold, hpick]
    rfl
  · have hnew : [row].find? (fun m => decide (m.principalId = record.principalId)) = none := by
      simpa using Ne.symm hsame
    rw [if_neg hsame, scope, hfind, hnew, Option.or_none, scope]

section Widened

variable {version : Int} {users : Table UserRow.principalId}
  {organizations : Table OrganizationRow.organizationId} {memberships : Table MembershipRow.key}
  {records current : Table TokenRecord.tokenHash} {indexes : List (String × TableName)}

theorem insertOrganization_widened {row : OrganizationRow}
    (hfree : organizations.find row.organizationId = none) :
    (widened version users organizations memberships current indexes).insertOrganization row =
      .ok (widened version users (organizations.insertNew row hfree) memberships current indexes) :=
  dif_pos hfree

theorem insertOrganization_taken {row : OrganizationRow}
    (htaken : organizations.find row.organizationId ≠ none) :
    (widened version users organizations memberships current indexes).insertOrganization row =
      .error (uniqueFailed "organizations.organization_id") :=
  dif_neg htaken

theorem insertMembership_widened {row : MembershipRow} (hfree : memberships.find row.key = none)
    (horganization : organizations.find row.organizationId ≠ none)
    (huser : users.find row.principalId ≠ none) :
    (widened version users organizations memberships current indexes).insertMembership row =
      .ok (widened version users organizations (memberships.insertNew row hfree) current indexes) := by
  have hkeys : ¬(organizations.find row.organizationId = none ∨ users.find row.principalId = none) :=
    not_or.mpr ⟨horganization, huser⟩
  exact (dif_pos hfree).trans (if_neg hkeys)

theorem scopeTokens_widened (organization : OrganizationId) (principal : PrincipalId) :
    ∃ current', (widened version users organizations memberships current indexes).scopeTokens
        organization principal =
      .ok (widened version users organizations memberships current' indexes) ∧
      current'.rows = current.rows.map fun row =>
        if row.principalId = principal then { row with organizationId := some organization }
        else row :=
  ⟨_, rfl, rfl⟩

theorem personalOrganization_settles {principals : List PrincipalId} {principal : PrincipalId}
    {name : Str} (hbehind : Behind world version users records indexes principals s)
    (hlimit : principals.length < limit) (hnew : principal ∉ principals)
    (huser : users.find principal ≠ none) :
    Txn.Settles (excuse limit world) (personalOrganization principal name) world s fun _ t =>
      Behind world version users records indexes (principals ++ [principal]) t := by
  obtain ⟨⟨stored, file, locked, hview⟩, statements, readings, draws⟩ := s
  obtain ⟨organizations, memberships, current, rfl, hcurrent, hassigned, rfl⟩ := hbehind
  refine (randomOrganizationId_settles hlimit).bind ?_
  rintro organization t₁ ⟨bytes, hbytes, rfl, rfl⟩
  refine unixNow_settles.bind ?_
  rintro now t₂ rfl
  -- the principal has no membership yet, so nothing stands in the way of the new one
  have hnone : ∀ m ∈ memberships.rows, m.principalId ≠ principal := by
    rintro m hm rfl
    exact hnew (hassigned.principals ▸ List.mem_map_of_mem hm)
  by_cases hfree : organizations.find (organizationIdOf bytes) = none
  · have hkey : memberships.find (organizationIdOf bytes, principal) = none := by
      rw [Table.find_eq_none]
      intro m hm heq
      exact hnone m hm (congrArg Prod.snd heq)
    have hunused : ∀ m ∈ memberships.rows, m.organizationId ≠ organizationIdOf bytes := by
      rintro m hm heq
      exact hassigned.organization m hm (heq ▸ hfree)
    have horganization : (organizations.insertNew
        ⟨organizationIdOf bytes, "Personal organization for ".toList ++ name, now⟩ hfree).find
          (organizationIdOf bytes) ≠ none := by
      rw [Table.find_insertNew, if_pos rfl]
      exact Option.some_ne_none _
    refine (execute_settles (insertOrganization_widened hfree)).bind ?_
    rintro - t₃ rfl
    refine (execute_settles (insertMembership_widened hkey horganization huser)).bind ?_
    rintro - t₄ rfl
    obtain ⟨current', hscope, hrows⟩ := scopeTokens_widened (organizationIdOf bytes) principal
    refine (execute_settles hscope).mono ?_
    rintro - t₅ rfl
    refine ⟨_, _, current', rfl, ?_, ?_, by rw [List.length_append]; rfl⟩
    · rw [hrows, hcurrent, List.map_map]
      refine List.map_congr_left fun record _ => ?_
      rw [Function.comp_apply, scope_insertNew hkey hnone]
      rfl
    · exact {
        principals := by
          show (memberships.rows ++ [_]).map _ = _
          rw [List.map_append, hassigned.principals]
          rfl
        own := by
          show ((memberships.rows ++ [_]).map _).Nodup
          rw [List.map_append, List.nodup_append]
          refine ⟨hassigned.own, List.nodup_singleton _, ?_⟩
          intro o ho o' ho'
          obtain ⟨m, hm, rfl⟩ := List.mem_map.mp ho
          obtain rfl : o' = organizationIdOf bytes := by simpa using ho'
          exact hunused m hm
        organization := by
          refine Table.forall_mem_insertNew ?_ horganization
          exact fun m hm => Table.find_insertNew_ne_none (hassigned.organization m hm)
        user := Table.forall_mem_insertNew hassigned.user huser
        drawn := by
          refine Table.forall_mem_insertNew ?_ ⟨principals.length, Nat.lt_succ_self _, bytes, hbytes, rfl⟩
          intro row hrow
          obtain ⟨n, hn, hdrawn⟩ := hassigned.drawn row hrow
          exact ⟨n, Nat.lt_succ_of_lt hn, hdrawn⟩ }
  · -- an id that is taken was drawn before
    have hunhealthy : ¬Healthy limit world := by
      intro hhealthy
      obtain ⟨row, hrow⟩ := Option.ne_none_iff_exists'.mp hfree
      obtain ⟨hmem, hid⟩ := Table.find_eq_some.mp hrow
      obtain ⟨n, hn, bytes', hbytes', hdrawn⟩ := hassigned.drawn row hmem
      exact hhealthy.distinct hn hlimit hbytes' hbytes (hdrawn.trans hid)
    exact (execute_refused ⟨_, insertOrganization_taken hfree⟩ hunhealthy).bind fun _ _ h => h.elim

/-- The loop gives every principal an organization, or has an excuse. -/
theorem personalOrganizations_settles {pending : List (PrincipalId × Str)}
    {principals : List PrincipalId}
    (hbehind : Behind world version users records indexes principals s)
    (hlimit : (principals ++ pending.map Prod.fst).length ≤ limit)
    (hnodup : (principals ++ pending.map Prod.fst).Nodup)
    (husers : ∀ p ∈ pending, users.find p.1 ≠ none) :
    Txn.Settles (excuse limit world) (personalOrganizations pending) world s fun _ t =>
      Behind world version users records indexes (principals ++ pending.map Prod.fst) t := by
  induction pending generalizing principals s with
  | nil =>
    refine Txn.Settles.pure ?_
    rwa [List.map_nil, List.append_nil]
  | cons p pending ih =>
    obtain ⟨principal, name⟩ := p
    have hassoc : principals ++ ((principal, name) :: pending).map Prod.fst =
        principals ++ [principal] ++ pending.map Prod.fst := by
      rw [List.map_cons, List.append_assoc, List.singleton_append]
    rw [hassoc] at hlimit hnodup ⊢
    have hroom : principals.length < limit := by
      rw [List.length_append, List.length_append, List.length_singleton] at hlimit
      omega
    have hnew : principal ∉ principals := by
      have hfront := (List.nodup_append.mp (List.nodup_append.mp hnodup).1).2.2
      exact fun hmem => hfront principal hmem principal (List.mem_singleton_self _) rfl
    refine (personalOrganization_settles hbehind hroom hnew (husers _ List.mem_cons_self)).bind ?_
    intro _ t ht
    exact ih ht hlimit hnodup fun p hp => husers p (List.mem_cons_of_mem _ hp)

/-- Copying tokens that are scoped to memberships, under keys that are free. -/
theorem foldlM_copyToken {rows : List TokenRecord} {target : Table TokenRecord.tokenHash}
    (hmembership : ∀ row ∈ rows, ∃ organization, row.organizationId = some organization ∧
      memberships.find (organization, row.principalId) ≠ none)
    (hnodup : (target.rows.map TokenRecord.tokenHash ++ rows.map TokenRecord.tokenHash).Nodup) :
    ∃ copied, rows.foldlM (DatabaseFile.copyToken true memberships) target = .ok copied ∧
      copied.rows = target.rows ++ rows.map fun row => { row with expiresAtUnix := none } := by
  induction rows generalizing target with
  | nil => exact ⟨target, rfl, by rw [List.map_nil, List.append_nil]⟩
  | cons row rows ih =>
    obtain ⟨organization, horganization, hmember⟩ := hmembership row List.mem_cons_self
    have hfree : target.find row.tokenHash = none := by
      rw [Table.find_eq_none]
      intro row' hrow' heq
      exact (List.nodup_append.mp hnodup).2.2 row'.tokenHash (List.mem_map_of_mem hrow')
        row.tokenHash (by rw [List.map_cons]; exact List.mem_cons_self) heq
    have hcopy : DatabaseFile.copyToken true memberships target row =
        .ok (target.insertNew { row with expiresAtUnix := none } hfree) := by
      unfold DatabaseFile.copyToken
      rw [horganization]
      dsimp only
      exact (dif_pos hfree).trans (if_neg (not_and_of_not_right _ hmember))
    have hnext : ((target.insertNew { row with expiresAtUnix := none } hfree).rows.map
        TokenRecord.tokenHash ++ rows.map TokenRecord.tokenHash).Nodup := by
      show ((target.rows ++ [_]).map _ ++ _).Nodup
      rw [List.map_append, List.append_assoc]
      exact hnodup
    obtain ⟨copied, hfold, hrows⟩ :=
      ih (fun row' hrow' => hmembership row' (List.mem_cons_of_mem _ hrow')) hnext
    refine ⟨copied, ?_, ?_⟩
    · rw [List.foldlM_cons, hcopy]
      exact hfold
    · rw [hrows]
      show target.rows ++ [_] ++ _ = _
      rw [List.append_assoc]
      rfl

end Widened

/-- A file with organizations: of version 2, or of version 3 once its tokens may
expire. -/
def organizedFile (version : Int) (users : Table UserRow.principalId)
    (organizations : Table OrganizationRow.organizationId) (memberships : Table MembershipRow.key)
    (expiry : Option ColumnRule) (records : Table TokenRecord.tokenHash)
    (indexes : List (String × TableName)) : DatabaseFile :=
  ⟨version, some users, some organizations, some memberships,
    some ⟨some .NotNull, expiry, true, records⟩, none, indexes⟩

section Rebuilt

variable {version : Int} {users : Table UserRow.principalId} {records : Table TokenRecord.tokenHash}
  {indexes : List (String × TableName)}

/-- Every principal has its organization, so every token is scoped to a membership. -/
theorem scope_membership {principals : List PrincipalId}
    {organizations : Table OrganizationRow.organizationId} {memberships : Table MembershipRow.key}
    {draws : Nat} (hassigned : Assigned world users principals organizations memberships draws)
    {record : TokenRecord} (hrecord : record.principalId ∈ principals) :
    ∃ organization, (scope memberships record).organizationId = some organization ∧
      memberships.find (organization, record.principalId) ≠ none := by
  rw [← hassigned.principals] at hrecord
  obtain ⟨m, hm, hprincipal⟩ := List.mem_map.mp hrecord
  cases hfind : memberships.rows.find? fun m => decide (m.principalId = record.principalId) with
  | none =>
    have := List.find?_eq_none.mp hfind m hm
    simp [hprincipal] at this
  | some m' =>
    refine ⟨m'.organizationId, by rw [scope, hfind]; rfl, ?_⟩
    have hsame : m'.principalId = record.principalId := by simpa using List.find?_some hfind
    have hrow : memberships.find (m'.organizationId, record.principalId) = some m' :=
      Table.find_eq_some.mpr ⟨List.mem_of_find?_eq_some hfind, by rw [MembershipRow.key, hsame]⟩
    rw [hrow]
    exact Option.some_ne_none _

/-- The table rebuild at the end of `migrate_v1_to_v2`. -/
theorem rebuild_batch {organizations : Table OrganizationRow.organizationId}
    {memberships : Table MembershipRow.key} {current : Table TokenRecord.tokenHash}
    (hmembership : ∀ row ∈ current.rows, ∃ organization, row.organizationId = some organization ∧
      memberships.find (organization, row.principalId) ≠ none)
    (hindexes : ∀ index ∈ indexes, index = ("idx_tokens_principal", .tokens)) :
    ∃ copied, copied.rows = current.rows.map (fun row => { row with expiresAtUnix := none }) ∧
      batch
        [(·.createTokensV2), (·.copyTokens), (·.dropTokens), (·.renameTokensV2),
          (·.createIndex "idx_tokens_principal" .tokens),
          (·.createIndex "idx_memberships_principal" .organizationMemberships),
          (·.setUserVersion 2)]
        (widened version users organizations memberships current indexes) =
      .ok (organizedFile 2 users organizations memberships none copied
        [("idx_tokens_principal", .tokens),
          ("idx_memberships_principal", .organizationMemberships)]) := by
  have hnodup : ((Table.empty : Table TokenRecord.tokenHash).rows.map TokenRecord.tokenHash ++
      current.rows.map TokenRecord.tokenHash).Nodup := by
    rw [Table.rows_empty, List.map_nil, List.nil_append]
    exact current.keys_nodup
  obtain ⟨copied, hfold, hrows⟩ := foldlM_copyToken hmembership hnodup
  have hdropped : indexes.filter (fun index => decide (index.2 ≠ TableName.tokens)) = [] := by
    rw [List.filter_eq_nil_iff]
    intro index hindex
    rw [hindexes index hindex]
    decide
  refine ⟨copied, by rw [hrows, Table.rows_empty, List.nil_append], ?_⟩
  show (do
    let records ← current.rows.foldlM (DatabaseFile.copyToken true memberships) .empty
    _) >>= batch _ = _
  rw [hfold]
  show batch [(·.renameTokensV2), _, _, _] ⟨version, some users, some organizations,
    some memberships, none, some ⟨some .NotNull, none, true, copied⟩,
    indexes.filter fun index => decide (index.2 ≠ TableName.tokens)⟩ = _
  rw [hdropped]
  rfl

/-- What became of a legacy file: its tokens, scoped to an organization that each
user has alone. -/
structure Personal (users : Table UserRow.principalId) (records : Table TokenRecord.tokenHash)
    (organizations : Table OrganizationRow.organizationId) (memberships : Table MembershipRow.key)
    (copied : Table TokenRecord.tokenHash) : Prop where
  rows : copied.rows = records.rows.map fun row => { scope memberships row with expiresAtUnix := none }
  principals : (memberships.rows.map MembershipRow.principalId).Nodup
  all : ∀ principal, users.find principal ≠ none →
    principal ∈ memberships.rows.map MembershipRow.principalId
  own : (memberships.rows.map MembershipRow.organizationId).Nodup
  organization : ∀ row ∈ memberships.rows, organizations.find row.organizationId ≠ none
  user : ∀ row ∈ memberships.rows, users.find row.principalId ≠ none
  membership : ∀ row ∈ copied.rows, ∃ organization, row.organizationId = some organization ∧
    memberships.find (organization, row.principalId) ≠ none

/-- The principals in the order the loop takes them. -/
def sortedPrincipals (users : Table UserRow.principalId) : List (PrincipalId × Str) :=
  (users.rows.mergeSort fun row row' => decide (row.principalId.id ≤ row'.principalId.id)).map
    fun row => (row.principalId, row.name)

/-- The tokens right after `ADD COLUMN`. -/
def unscoped (records : Table TokenRecord.tokenHash) : Table TokenRecord.tokenHash :=
  records.update (fun row => { row with organizationId := none }) tokenHash_unscoped

theorem widen_batch :
    batch [(·.addOrganizationColumn), (·.createOrganizations), (·.createMemberships)]
        ⟨version, some users, none, none, some ⟨none, none, false, records⟩, none, indexes⟩ =
      .ok (widened version users .empty .empty (unscoped records) indexes) :=
  rfl

theorem principals_widened {organizations : Table OrganizationRow.organizationId}
    {memberships : Table MembershipRow.key} :
    (widened version users organizations memberships records indexes).principals =
      .ok (sortedPrincipals users) :=
  rfl

theorem migrateV1ToV2_settles
    (hfile : s.file = ⟨version, some users, none, none, some ⟨none, none, false, records⟩, none,
      indexes⟩)
    (hdraws : s.draws = 0) (hlimit : users.rows.length ≤ limit)
    (hprincipals : ∀ row ∈ records.rows, users.find row.principalId ≠ none)
    (hindexes : ∀ index ∈ indexes, index = ("idx_tokens_principal", .tokens)) :
    Txn.Settles (excuse limit world) migrateV1ToV2 world s fun _ t =>
      ∃ organizations memberships copied indexes',
        t.file = organizedFile 2 users organizations memberships none copied indexes' ∧
        Personal users records organizations memberships copied := by
  obtain ⟨⟨stored, file, locked, hview⟩, statements, readings, draws⟩ := s
  obtain rfl := hfile
  have horphan : DatabaseFile.orphanedPrincipal ⟨version, some users, none, none,
      some ⟨none, none, false, records⟩, none, indexes⟩ = .ok none := by
    have hnone : records.rows.find? (fun row => decide (users.find row.principalId = none)) = none := by
      rw [List.find?_eq_none]
      intro row hrow
      simpa using hprincipals row hrow
    show Except.ok ((records.rows.find? _).map _) = _
    rw [hnone, Option.map_none]
  refine (query_settles horphan).bind ?_
  rintro - t₁ ⟨rfl, rfl⟩
  refine (executeBatch_settles widen_batch).bind ?_
  rintro - ⟨⟨stored₂, file₂, locked₂, hview₂⟩, statements₂, readings₂, draws₂⟩ ⟨rfl, hkept⟩
  refine (query_settles principals_widened).bind ?_
  rintro pending t₃ ⟨rfl, rfl⟩
  have hperm : ((sortedPrincipals users).map Prod.fst).Perm (users.rows.map UserRow.principalId) := by
    rw [sortedPrincipals, List.map_map]
    exact (List.mergeSort_perm _ _).map _
  have hmem : ∀ principal, principal ∈ (sortedPrincipals users).map Prod.fst ↔
      users.find principal ≠ none := by
    intro principal
    rw [hperm.mem_iff, Option.ne_none_iff_exists', List.mem_map]
    simp only [Table.find_eq_some]
  have hbehind : Behind world version users records indexes []
      (.after ⟨⟨stored₂, widened version users .empty .empty (unscoped records) indexes, locked₂,
        hview₂⟩, statements₂, readings₂, draws₂⟩
        (widened version users .empty .empty (unscoped records) indexes)) :=
    ⟨.empty, .empty, _, rfl, rfl, ⟨rfl, List.nodup_nil, by simp, by simp, by simp⟩,
      hkept.trans hdraws⟩
  have hlength : ((sortedPrincipals users).map Prod.fst).length ≤ limit := by
    rw [hperm.length_eq, List.length_map]
    exact hlimit
  refine (personalOrganizations_settles hbehind hlength (hperm.nodup_iff.mpr users.keys_nodup)
    ?_).bind ?_
  · intro p hp
    exact (hmem p.1).mp (List.mem_map_of_mem hp)
  rintro - ⟨⟨stored₄, file₄, locked₄, hview₄⟩, statements₄, readings₄, draws₄⟩
    ⟨organizations, memberships, current, rfl, hcurrent, hassigned, -⟩
  rw [List.nil_append] at hassigned
  have hmembership : ∀ row ∈ current.rows, ∃ organization,
      row.organizationId = some organization ∧
        memberships.find (organization, row.principalId) ≠ none := by
    intro row hrow
    rw [hcurrent] at hrow
    obtain ⟨record, hrecord, rfl⟩ := List.mem_map.mp hrow
    exact scope_membership hassigned ((hmem _).mpr (hprincipals record hrecord))
  obtain ⟨copied, hcopied, hbatch⟩ := rebuild_batch hmembership hindexes
  refine (executeBatch_settles hbatch).mono ?_
  rintro - t ⟨hfile, -⟩
  refine ⟨organizations, memberships, copied, _, hfile, ?_⟩
  exact {
    rows := by
      rw [hcopied, hcurrent, List.map_map]
      rfl
    principals := by
      rw [hassigned.principals]
      exact hperm.nodup_iff.mpr users.keys_nodup
    all := by
      intro principal hprincipal
      rw [hassigned.principals]
      exact (hmem principal).mpr hprincipal
    own := hassigned.own
    organization := hassigned.organization
    user := hassigned.user
    membership := by
      intro row hrow
      rw [hcopied] at hrow
      obtain ⟨row', hrow', rfl⟩ := List.mem_map.mp hrow
      exact hmembership row' hrow' }

end Rebuilt

-- ---------------------------------------------------------------------------
-- From version 2 to version 3
-- ---------------------------------------------------------------------------

/-- The tokens right after `ADD COLUMN`. -/
def unexpired (records : Table TokenRecord.tokenHash) : Table TokenRecord.tokenHash :=
  records.update (fun row => { row with expiresAtUnix := none }) tokenHash_unexpired

section Organized

variable {version : Int} {users : Table UserRow.principalId}
  {organizations : Table OrganizationRow.organizationId} {memberships : Table MembershipRow.key}
  {records : Table TokenRecord.tokenHash} {indexes : List (String × TableName)}

theorem migrateV2ToV3_settles
    (hfile : s.file = organizedFile version users organizations memberships none records indexes) :
    Txn.Settles (excuse limit world) migrateV2ToV3 world s fun _ t =>
      t.file = organizedFile 3 users organizations memberships (some .Nullable) (unexpired records)
        indexes := by
  obtain ⟨⟨stored, file, locked, hview⟩, statements, readings, draws⟩ := s
  obtain rfl := hfile
  exact (executeBatch_settles rfl).mono fun _ _ ht => ht.1

/-- The row of a token that has its organization. -/
def tokenRow (record : TokenRecord) : TokenRow :=
  ⟨record.tokenHash, record.principalId, record.organizationId.getD ⟨[]⟩, record.createdAtUnix, none⟩

/-- A migrated file holds a database of the store, with the tables it has. -/
theorem stores_organized (indexes : List (String × TableName))
    (horganization : ∀ row ∈ memberships.rows, organizations.find row.organizationId ≠ none)
    (huser : ∀ row ∈ memberships.rows, users.find row.principalId ≠ none)
    (hmembership : ∀ row ∈ records.rows, ∃ organization, row.organizationId = some organization ∧
      memberships.find (organization, row.principalId) ≠ none) :
    ∃ db, Stores (organizedFile 3 users organizations memberships (some .Nullable)
        (unexpired records) indexes) db ∧
      db.users = users ∧ db.organizations = organizations ∧ db.memberships = memberships ∧
      db.tokens.rows = records.rows.map tokenRow := by
  have hkeys : ((records.rows.map tokenRow).map TokenRow.tokenHash).Nodup := by
    rw [List.map_map]
    exact records.keys_nodup
  refine ⟨⟨users, organizations, memberships, ⟨records.rows.map tokenRow, hkeys⟩, horganization,
    huser, ?_⟩, ⟨rfl, rfl, rfl, rfl, ⟨_, rfl, ?_⟩, rfl⟩, rfl, rfl, rfl, rfl⟩
  · intro row hrow
    obtain ⟨record, hrecord, rfl⟩ := List.mem_map.mp hrow
    obtain ⟨organization, hscope, hmember⟩ := hmembership record hrecord
    rw [TokenRow.membership, tokenRow, hscope]
    exact hmember
  · show records.rows.map _ = (records.rows.map tokenRow).map TokenRow.record
    rw [List.map_map]
    refine List.map_congr_left fun record hrecord => ?_
    obtain ⟨organization, hscope, -⟩ := hmembership record hrecord
    rw [Function.comp_apply, TokenRow.record, tokenRow, hscope]
    rfl

end Organized

end Migration

section Credentials

variable {db : Database} {records : Table TokenRecord.tokenHash}

/-- Where the tokens are those of the old file, scoped, so are the credentials. -/
theorem credential_tokenRow (hrows : db.tokens.rows = records.rows.map Migration.tokenRow)
    (hashToken : Str → Str) (token : Str) :
    db.credential hashToken token = (records.find (hashToken token)).map fun record =>
      ⟨record.principalId, record.organizationId.getD ⟨[]⟩, record.createdAtUnix, none⟩ := by
  rw [credential_eq, Table.find_of_rows_eq_map hrows fun _ => rfl, Option.map_map]
  rfl

end Credentials

namespace Migration

section Files

variable {users : Table UserRow.principalId} {organizations : Table OrganizationRow.organizationId}
  {memberships : Table MembershipRow.key} {records copied : Table TokenRecord.tokenHash}
  {indexes indexes' : List (String × TableName)}

/-- A file of version 2, migrated. -/
theorem migrated_organized
    (horganization : ∀ row ∈ memberships.rows, organizations.find row.organizationId ≠ none)
    (huser : ∀ row ∈ memberships.rows, users.find row.principalId ≠ none)
    (hmembership : ∀ row ∈ records.rows, ∃ organization, row.organizationId = some organization ∧
      memberships.find (organization, row.principalId) ≠ none) :
    Migrated (organizedFile 2 users organizations memberships none records indexes)
      (organizedFile 3 users organizations memberships (some .Nullable) (unexpired records)
        indexes) := by
  obtain ⟨db, hstores, rfl, rfl, rfl, hrows⟩ :=
    stores_organized indexes horganization huser hmembership
  refine ⟨db, hstores, ?_⟩
  exact {
    users := rfl
    tokens := by
      intro hashToken token
      rw [credential_tokenRow hrows, Option.map_map]
      rfl
    personal := fun hversion => absurd hversion (Int.lt_irrefl 2)
    scope := by
      intro _
      refine ⟨rfl, rfl, fun hashToken token => ?_⟩
      rw [credential_tokenRow hrows, Option.map_map]
      show _ = (records.find (hashToken token)).bind _
      cases hfind : records.find (hashToken token) with
      | none => rfl
      | some record =>
        obtain ⟨organization, hscope, -⟩ := hmembership record (Table.find_eq_some.mp hfind).1
        rw [Option.map_some, Option.bind_some, hscope, Function.comp_apply, hscope]
        rfl }

/-- Where no two memberships are one principal's, a principal has one. -/
theorem filter_principal {rows : List MembershipRow} {m : MembershipRow}
    (hnodup : (rows.map MembershipRow.principalId).Nodup) (hm : m ∈ rows) :
    rows.filter (fun row => decide (row.principalId = m.principalId)) = [m] := by
  induction rows with
  | nil => cases hm
  | cons row rows ih =>
    rw [List.map_cons, List.nodup_cons] at hnodup
    rcases List.mem_cons.mp hm with rfl | hm
    · rw [List.filter_cons_of_pos (by simp), List.cons.injEq, List.filter_eq_nil_iff]
      refine ⟨rfl, fun row hrow hsame => ?_⟩
      exact hnodup.1 (of_decide_eq_true hsame ▸ List.mem_map_of_mem hrow)
    · rw [List.filter_cons_of_neg, ih hnodup.2 hm]
      intro hsame
      exact hnodup.1 (of_decide_eq_true hsame ▸ List.mem_map_of_mem hm)

/-- A legacy file, migrated. -/
theorem migrated_legacy {version : Int} (hversion : version < 2)
    (hpersonal : Personal users records organizations memberships copied) :
    Migrated ⟨version, some users, none, none, some ⟨none, none, false, records⟩, none, indexes⟩
      (organizedFile 3 users organizations memberships (some .Nullable) (unexpired copied)
        indexes') := by
  obtain ⟨db, hstores, rfl, rfl, rfl, hrows⟩ :=
    stores_organized indexes' hpersonal.organization hpersonal.user hpersonal.membership
  refine ⟨db, hstores, ?_⟩
  exact {
    users := rfl
    tokens := by
      intro hashToken token
      rw [credential_tokenRow hrows, Table.find_of_rows_eq_map hpersonal.rows fun _ => rfl,
        Option.map_map, Option.map_map]
      rfl
    personal := by
      intro _ principal huser
      obtain ⟨m, hm, rfl⟩ :=
        List.mem_map.mp (hpersonal.all principal (Option.isSome_iff_ne_none.mp huser))
      refine ⟨m.organizationId, ?_, ?_⟩
      · rw [Database.organizationsOf, filter_principal hpersonal.principals hm]
        rfl
      · intro other hother
        obtain ⟨m', hm', hsame⟩ := List.mem_map.mp hother
        obtain ⟨hmem, hprincipal⟩ := List.mem_filter.mp hm'
        obtain rfl := List.inj_on_of_nodup_map hpersonal.own hmem hm hsame
        exact (of_decide_eq_true hprincipal).symm
    scope := by
      rintro rfl
      exact absurd hversion (by decide) }

end Files

/-- The file `create_schema_v3` makes of a new one. -/
def newFile : DatabaseFile :=
  organizedFile 3 .empty .empty .empty (some .Nullable) .empty
    [("idx_tokens_principal", .tokens), ("idx_memberships_principal", .organizationMemberships)]

theorem create_batch :
    batch
        [(·.createUsersIfNotExists), (·.createOrganizationsIfNotExists),
          (·.createMembershipsIfNotExists), (·.createTokensIfNotExists),
          (·.createIndexIfNotExists "idx_tokens_principal" .tokens),
          (·.createIndexIfNotExists "idx_memberships_principal" .organizationMemberships),
          (·.setUserVersion 3)] ⟨0, none, none, none, none, none, []⟩ =
      .ok newFile :=
  rfl

theorem migrated_new : Migrated ⟨0, none, none, none, none, none, []⟩ newFile := by
  refine ⟨.empty, ⟨rfl, rfl, rfl, rfl, ⟨_, rfl, rfl⟩, rfl⟩, ?_⟩
  exact {
    users := rfl
    tokens := fun _ _ => rfl
    personal := fun _ principal huser => absurd huser (by simp [Database.isUser, Database.empty])
    scope := fun hversion => absurd hversion (by decide) }

-- ---------------------------------------------------------------------------
-- The whole transaction
-- ---------------------------------------------------------------------------

/-- A file of version 3 passes every check of `validate_v3_schema`. -/
theorem v3Checks_ok {file : DatabaseFile} {db : Database} (h : Stores file db) :
    ∀ check ∈ v3Checks, check file = .ok () := by
  obtain ⟨records, htokens, -⟩ := h.tokens
  intro check hcheck
  simp only [v3Checks, List.mem_cons, List.not_mem_nil, or_false] at hcheck
  rcases hcheck with rfl | rfl | rfl | rfl | rfl
  · dsimp only
    rw [h.users]
    rfl
  · dsimp only
    rw [h.organizations]
    rfl
  · dsimp only
    rw [h.memberships]
    rfl
  · dsimp only [checkTokensColumns]
    rw [htokens]
    rfl
  · dsimp only [checkExpiryIsNullable]
    rw [htokens]
    rfl

theorem validate_settles {checks : List (DatabaseFile → Except OpenError Unit)}
    (h : ∀ check ∈ checks, check s.file = .ok ()) :
    Txn.Settles (excuse limit world) (validate checks) world s fun _ t =>
      t.file = s.file ∧ t.stored = s.stored := by
  induction checks generalizing s with
  | nil => exact Txn.Settles.pure ⟨rfl, rfl⟩
  | cons check checks ih =>
    have hrun : (fun file => (check file).map fun _ => ((), file)) s.file = .ok ((), s.file) := by
      dsimp only
      rw [h check List.mem_cons_self]
      rfl
    refine (statement_settles hrun).bind ?_
    rintro - t ⟨-, rfl⟩
    have hrest : ∀ check ∈ checks, check (s.after s.file).file = .ok () :=
      fun check hcheck => h check (List.mem_cons_of_mem _ hcheck)
    exact (ih hrest).mono fun _ _ ht => ⟨ht.1, ht.2.trans s.stored_write_view⟩

/-- The two steps a legacy file goes through. -/
theorem legacyChain_settles {version : Int} {users : Table UserRow.principalId}
    {records : Table TokenRecord.tokenHash} {indexes : List (String × TableName)}
    (hversion : version = 0 ∨ version = 1) (hdraws : s.draws = 0)
    (hlimit : users.rows.length ≤ limit)
    (hprincipals : ∀ row ∈ records.rows, users.find row.principalId ≠ none)
    (hindexes : ∀ index ∈ indexes, index = ("idx_tokens_principal", .tokens))
    (hfile : s.file = ⟨version, some users, none, none, some ⟨none, none, false, records⟩, none,
      indexes⟩) :
    Txn.Settles (excuse limit world) (do migrateV1ToV2; migrateV2ToV3) world s fun _ t =>
      Migrated s.file t.file := by
  refine (migrateV1ToV2_settles hfile hdraws hlimit hprincipals hindexes).bind ?_
  rintro - t ⟨organizations, memberships, copied, indexes', ht, hpersonal⟩
  refine (migrateV2ToV3_settles ht).mono ?_
  rintro - u hu
  rw [hu, hfile]
  refine migrated_legacy ?_ hpersonal
  rcases hversion with rfl | rfl <;> decide

/-- `initialize_unversioned_database` looks which tables there are, and goes on. -/
theorem initializeUnversionedDatabase_settles {post : Unit → MigrationSession → Prop}
    (h : ∀ t, t.file = s.file → t.draws = s.draws → Txn.Settles (excuse limit world)
      (initializeTables (s.file.has .users, s.file.has .tokens, s.file.has .organizations,
        s.file.has .organizationMemberships)) world t post) :
    Txn.Settles (excuse limit world) initializeUnversionedDatabase world s post := by
  refine (look_settles (·.has .users)).bind ?_
  rintro _ t₁ ⟨rfl, rfl⟩
  refine (look_settles (·.has .tokens)).bind ?_
  rintro _ t₂ ⟨rfl, rfl⟩
  refine (look_settles (·.has .organizations)).bind ?_
  rintro _ t₃ ⟨rfl, rfl⟩
  refine (look_settles (·.has .organizationMemberships)).bind ?_
  rintro _ t₄ ⟨rfl, rfl⟩
  exact h _ rfl rfl

/-- The chain of steps from each version ends in a migrated file. -/
theorem migrateFrom_settles (h : Satisfies s.file) (hdraws : s.draws = 0) :
    Txn.Settles (excuse s.file.userCount world) (migrateFrom s.file.userVersion) world s fun _ t =>
      Migrated s.file t.file := by
  obtain ⟨⟨stored, file, locked, hview⟩, statements, readings, draws⟩ := s
  dsimp only at h hdraws ⊢
  subst hdraws
  cases h with
  | new =>
    refine initializeUnversionedDatabase_settles ?_
    rintro ⟨⟨stored', file, locked', hview'⟩, statements', readings', draws'⟩ rfl -
    refine (executeBatch_settles create_batch).mono ?_
    rintro - t ⟨ht, -⟩
    rw [ht]
    exact migrated_new
  | @legacy version users records indexes hversion hprincipals hindexes =>
    rcases hversion with rfl | rfl
    · refine initializeUnversionedDatabase_settles ?_
      rintro ⟨⟨stored', file, locked', hview'⟩, statements', readings', draws'⟩ rfl hkept
      exact legacyChain_settles (.inl rfl) hkept (Nat.le_refl _) hprincipals hindexes rfl
    · exact legacyChain_settles (.inr rfl) rfl (Nat.le_refl _) hprincipals hindexes rfl
  | @organized users organizations memberships records indexes horganization huser hmembership =>
    refine (migrateV2ToV3_settles (s := ⟨⟨stored, _, locked, hview⟩, statements, readings, 0⟩)
      rfl).mono ?_
    rintro - t ht
    rw [ht]
    exact migrated_organized horganization huser hmembership

/-- What a process may find under the lock: a file of an old version that
satisfies its schema, or one of version 3. -/
def Openable (file : DatabaseFile) : Prop := Satisfies file ∨ ∃ db, Stores file db

/-- What it leaves: the old file migrated, or the new one as it was. -/
def Finished (file file' : DatabaseFile) : Prop :=
  Satisfies file ∧ Migrated file file' ∨ (∃ db, Stores file db) ∧ file' = file

theorem migrateFrom_finished (h : Openable s.file) (hdraws : s.draws = 0) :
    Txn.Settles (excuse s.file.userCount world) (migrateFrom s.file.userVersion) world s fun _ t =>
      Finished s.file t.file := by
  rcases h with h | ⟨db, h⟩
  · exact (migrateFrom_settles h hdraws).mono fun _ _ ht => .inl ⟨h, ht⟩
  · have hvalidate : migrateFrom s.file.userVersion = validateV3Schema := by
      rw [h.version]
      rfl
    rw [hvalidate]
    exact (validate_settles (v3Checks_ok h)).mono fun _ _ ht => .inr ⟨⟨db, h⟩, ht.1⟩

/-- The write lock is taken, and nothing else happens. -/
theorem beginWrite_settles :
    Txn.Settles (excuse limit world) beginWrite world s fun _ t =>
      t.file = s.file ∧ t.draws = s.draws := by
  unfold Txn.Settles beginWrite control
  cases hfailure : world.failure s.statements with
  | none => exact ⟨rfl, rfl⟩
  | some message =>
    intro hhealthy
    rw [hhealthy.failure] at hfailure
    cases hfailure

/-- What the transaction saw is stored. -/
theorem commit_settles :
    Txn.Settles (excuse limit world) commit world s fun _ t => t.stored = s.file := by
  unfold Txn.Settles commit control
  cases hfailure : world.failure s.statements with
  | none => rfl
  | some message =>
    intro hhealthy
    rw [hhealthy.failure] at hfailure
    cases hfailure

/-- The transaction brings a file that satisfies its schema to version 3, and
leaves one that is there already. -/
theorem underLock_settles (h : Openable s.file) (hdraws : s.draws = 0) :
    Txn.Settles (excuse s.file.userCount world) underLock world s fun _ t =>
      Finished s.file t.stored := by
  refine beginWrite_settles.bind ?_
  rintro - t₁ ⟨hfile, hdrawn⟩
  rw [← hfile] at h ⊢
  refine (look_settles (·.userVersion)).bind ?_
  rintro version t₂ ⟨rfl, rfl⟩
  refine (migrateFrom_finished (s := t₁.after t₁.file) h (hdrawn.trans hdraws)).bind ?_
  intro _ t ht
  refine commit_settles.mono ?_
  intro _ u hu
  rw [hu]
  exact ht

/-- A process on its own. -/
theorem initializeSchema_settles (h : Openable s.file) (hdraws : s.draws = 0)
    (hstored : s.stored = s.file) :
    Txn.Settles (excuse s.file.userCount world) initializeSchema world s fun _ t =>
      Finished s.file t.stored := by
  refine (look_settles (·.userVersion)).bind ?_
  rintro version t ⟨rfl, rfl⟩
  split
  · rename_i hcurrent
    rcases h with h | ⟨db, h⟩
    · exact absurd hcurrent (Int.ne_of_lt h.version_lt)
    · exact (validate_settles (s := s.after s.file) (v3Checks_ok h)).mono
        fun _ _ ht => .inr ⟨⟨db, h⟩, ht.2.trans (s.stored_write_view.trans hstored)⟩
  · exact underLock_settles (s := s.after s.file) h hdraws

end Migration

-- ---------------------------------------------------------------------------
-- Any number of processes
-- ---------------------------------------------------------------------------

/-- Where a process may stand, when the file was `file` first and is `now`. -/
def Phase.Sound (file now : DatabaseFile) : Phase → Prop
  | .reading => True
  | .validating checks => Migrated file now ∧ ∀ check ∈ checks, check now = .ok ()
  | .waiting => True
  | .done (.ok ()) => Migrated file now
  | .done (.err e) => ∃ message, e = .Storage message
  | .done (.fault k) => k = .panic

/-- The shared file is the first one or that one migrated, and every process
stands where it may. -/
structure Opened (file : DatabaseFile) (s : Opening) : Prop where
  content : s.file = file ∨ Migrated file s.file
  phases : ∀ phase ∈ s.phases, phase.Sound file s.file

/-- What a step of a process does to the file, and where the process comes to. -/
structure Advanced (file now : DatabaseFile) (world : World) (phase' : Phase) (now' : DatabaseFile) :
    Prop where
  content : now' = file ∨ Migrated file now'
  kept : Migrated file now → now' = now
  sound : phase'.Sound file now'
  healthy : Healthy file.userCount world → ∀ result, phase' = .done result → result = .ok ()
  undone : ∀ result, phase' = .done result → result ≠ .ok () → now' = now

/-- A run that stopped early left the file and has an excuse for its result. -/
theorem stopped {file now : DatabaseFile} {world : World} (hnow : now = file ∨ Migrated file now)
    {result : Outcome OpenError Unit} {stop : OpenError ⊕ Fault} (hstop : result.failure = some stop)
    (hexcuse : excuse file.userCount world stop) : Advanced file now world (.done result) now where
  content := hnow
  kept := fun _ => rfl
  sound := by
    cases result with
    | ok a => cases hstop
    | err e =>
      obtain rfl : stop = .inl e := (Option.some.inj hstop).symm
      cases e with
      | Storage message => exact ⟨message, rfl⟩
      | UnsupportedSchemaVersion found supported => exact hexcuse.elim
      | MigrationIntegrity message => exact hexcuse.elim
    | fault k =>
      obtain rfl : stop = .inr k := (Option.some.inj hstop).symm
      cases k with
      | panic => rfl
      | overflow => exact hexcuse.elim
      | fuel => exact hexcuse.elim
  healthy := by
    intro hhealthy
    cases stop with
    | inl e =>
      cases e with
      | Storage message => exact absurd hhealthy hexcuse
      | UnsupportedSchemaVersion found supported => exact hexcuse.elim
      | MigrationIntegrity message => exact hexcuse.elim
    | inr k =>
      cases k with
      | panic => exact absurd hhealthy hexcuse
      | overflow => exact hexcuse.elim
      | fuel => exact hexcuse.elim
  undone := fun _ _ _ => rfl

/-- The file is one a process may find under the lock. -/
theorem openable {file now : DatabaseFile} (hfile : Satisfies file)
    (hnow : now = file ∨ Migrated file now) : Migration.Openable now := by
  rcases hnow with rfl | ⟨db, hstores, -⟩
  · exact .inl hfile
  · exact .inr ⟨db, hstores⟩

/-- Migrating a file leaves it its users. -/
theorem userCount_eq {file now : DatabaseFile} (hnow : now = file ∨ Migrated file now) :
    now.userCount = file.userCount := by
  rcases hnow with rfl | ⟨db, hstores, hpreserves⟩
  · rfl
  · rw [DatabaseFile.userCount, DatabaseFile.userCount, hstores.users, hpreserves.users]
    rfl

/-- A file of an old version holds no database of the store. -/
theorem not_stores {file : DatabaseFile} (h : Satisfies file) (db : Database) : ¬Stores file db := by
  intro hdb
  exact Int.ne_of_lt h.version_lt hdb.version

/-- What the transaction leaves of the first file, and of a migrated one. -/
theorem finished_migrated {file now now' : DatabaseFile} (hfile : Satisfies file)
    (hnow : now = file ∨ Migrated file now) (h : Migration.Finished now now') :
    Migrated file now' ∧ (Migrated file now → now' = now) := by
  rcases h with ⟨hsatisfies, hmigrated⟩ | ⟨⟨db, hstores⟩, rfl⟩
  · have hno : ¬Migrated file now := fun ⟨db, hdb, _⟩ => not_stores hsatisfies db hdb
    obtain rfl := hnow.resolve_right hno
    exact ⟨hmigrated, fun h => absurd h hno⟩
  · have hmigrated : Migrated file now' := by
      refine hnow.resolve_left ?_
      rintro rfl
      exact not_stores hfile db hstores
    exact ⟨hmigrated, fun _ => rfl⟩

/-- A run on the shared file: what it settles for, or nothing. -/
theorem run_settles {migration : Migration Unit} {world : World} {file now : DatabaseFile}
    (post : DatabaseFile → Prop)
    (hmigration : Txn.AllOrNothing MigrationSession.toConnection Txn.Anywhere migration)
    (h : Txn.Settles (excuse file.userCount world) migration world (.start now) fun _ t =>
      post t.stored) :
    (∃ now', migration.run world now = (.ok (), now') ∧ post now') ∨
      ∃ result stop, migration.run world now = (result, now) ∧ result.failure = some stop ∧
        excuse file.userCount world stop := by
  rcases h.result with ⟨a, hresult, hpost⟩ | ⟨stop, hstop, hexcuse⟩
  · refine .inl ⟨(migration world (.start now)).2.stored, ?_, hpost⟩
    exact Prod.ext hresult rfl
  · refine .inr ⟨(migration world (.start now)).1, stop, ?_, hstop, hexcuse⟩
    refine Prod.ext rfl (Migration.run_kept hmigration ?_)
    intro hreturned
    have hresult : (migration world (.start now)).1 = .ok () := hreturned
    rw [hresult] at hstop
    cases hstop

theorem advance_advanced {file now : DatabaseFile} (world : World) {phase : Phase}
    (hfile : Satisfies file) (hnow : now = file ∨ Migrated file now) (hsound : phase.Sound file now)
    (hrunning : phase.Running) :
    Advanced file now world (phase.advance world now).1 (phase.advance world now).2 := by
  cases phase with
  | done result => exact hrunning.elim
  | reading =>
    have hlook : Txn.Settles (excuse file.userCount world) Migration.schemaVersion world (.start now)
        fun version _ => version = now.userVersion :=
      (Migration.look_settles (·.userVersion)).mono fun _ _ ht => ht.1
    unfold Phase.advance
    rcases hlook.result with ⟨version, hresult, rfl⟩ | ⟨stop, hstop, hexcuse⟩
    · rcases hrun : Migration.schemaVersion world (.start now) with ⟨result, t⟩
      rw [hrun] at hresult
      obtain rfl : result = .ok now.userVersion := hresult
      dsimp only
      split
      · rename_i hcurrent
        have hmigrated : Migrated file now := by
          refine hnow.resolve_left ?_
          rintro rfl
          exact Int.ne_of_lt hfile.version_lt hcurrent
        have hchecks : ∀ check ∈ Migration.v3Checks, check now = .ok () :=
          Migration.v3Checks_ok hmigrated.choose_spec.1
        exact ⟨hnow, fun _ => rfl, ⟨hmigrated, hchecks⟩, fun _ _ h => (by cases h),
          fun _ _ _ => rfl⟩
      · exact ⟨hnow, fun _ => rfl, trivial, fun _ _ h => (by cases h), fun _ _ _ => rfl⟩
    · rcases hrun : Migration.schemaVersion world (.start now) with ⟨result, t⟩
      rw [hrun] at hstop
      cases result with
      | ok a => cases hstop
      | err e => exact stopped hnow hstop hexcuse
      | fault k => exact stopped hnow hstop hexcuse
  | waiting =>
    have hsettles : Txn.Settles (excuse file.userCount world) Migration.underLock world (.start now) fun _ t =>
        Migration.Finished now t.stored := by
      rw [← userCount_eq hnow]
      exact Migration.underLock_settles (s := .start now) (openable hfile hnow) rfl
    rw [Phase.advance]
    rcases run_settles (Migration.Finished now) Migration.underLock_allOrNothing hsettles with
      ⟨now', hrun, hfinished⟩ | ⟨result, stop, hrun, hstop, hexcuse⟩
    · rw [hrun]
      obtain ⟨hmigrated, hkept⟩ := finished_migrated hfile hnow hfinished
      refine ⟨.inr hmigrated, hkept, hmigrated, ?_, ?_⟩
      · intro _ result hresult
        exact (Phase.done.inj hresult).symm
      · intro result hresult hne
        exact absurd (Phase.done.inj hresult).symm hne
    · rw [hrun]
      exact stopped hnow hstop hexcuse
  | validating checks =>
    obtain ⟨hmigrated, hchecks⟩ := hsound
    cases checks with
    | nil =>
      refine ⟨hnow, fun _ => rfl, hmigrated, ?_, fun _ _ _ => rfl⟩
      intro _ result hresult
      exact (Phase.done.inj hresult).symm
    | cons check checks =>
      have hfirst : ∀ c ∈ [check], c now = .ok () := by
        intro c hc
        exact hchecks c (List.mem_singleton.mp hc ▸ List.mem_cons_self)
      have hsettles : Txn.Settles (excuse file.userCount world) (Migration.validate [check]) world (.start now)
          fun _ t => t.stored = now :=
        (Migration.validate_settles (s := .start now) hfirst).mono fun _ _ ht => ht.2
      rw [Phase.advance]
      rcases run_settles (· = now) (Migration.validate_keeps [check]).allOrNothing hsettles with
        ⟨now', hrun, -⟩ | ⟨result, stop, hrun, hstop, hexcuse⟩
      · rw [hrun]
        refine ⟨hnow, fun _ => rfl, ⟨hmigrated, ?_⟩, fun _ _ h => (by cases h), fun _ _ _ => rfl⟩
        exact fun c hc => hchecks c (List.mem_cons_of_mem _ hc)
      · rw [hrun]
        cases result with
        | ok a => cases hstop
        | err e => exact stopped hnow hstop hexcuse
        | fault k => exact stopped hnow hstop hexcuse

/-- How many steps a process has before it at most. -/
def Phase.remaining : Phase → Nat
  | .reading => 7
  | .validating checks => checks.length + 1
  | .waiting => 1
  | .done _ => 0

theorem advance_remaining {phase : Phase} (hrunning : phase.Running) (world : World)
    (now : DatabaseFile) : (phase.advance world now).1.remaining < phase.remaining := by
  cases phase with
  | done result => exact hrunning.elim
  | waiting => exact Nat.zero_lt_one
  | validating checks =>
    cases checks with
    | nil => exact Nat.zero_lt_one
    | cons check checks =>
      rw [Phase.advance]
      split
      · show checks.length + 1 < checks.length + 1 + 1
        omega
      · exact Nat.zero_lt_succ _
  | reading =>
    unfold Phase.advance
    dsimp only
    split
    · dsimp only
      split
      · show Migration.v3Checks.length + 1 < 7
        decide
      · show 1 < 7
        decide
    · exact Nat.zero_lt_succ _
    · exact Nat.zero_lt_succ _

section Openings

variable {file : DatabaseFile} {h : List (Entry Opening (Nat × World) Unit)} {s : Opening}

/-- A sound phase stays sound while another process works on the file. -/
theorem sound_mono {now now' : DatabaseFile} {phase : Phase}
    (hkept : Migrated file now → now' = now) (hsound : phase.Sound file now) :
    phase.Sound file now' := by
  cases phase with
  | reading => trivial
  | waiting => trivial
  | validating checks =>
    obtain rfl := hkept hsound.1
    exact hsound
  | done result =>
    cases result with
    | ok a =>
      obtain rfl := hkept hsound
      exact hsound
    | err e => exact hsound
    | fault k => exact hsound

theorem opened_step (hfile : Satisfies file) {a : Nat × World} {s' : Opening}
    (hopened : Opened file s) (hstep : (opening file).step s a () s') : Opened file s' := by
  obtain ⟨phase, hphase, hrunning, rfl⟩ := hstep
  have hmem := List.mem_of_getElem? hphase
  have hadvanced := advance_advanced a.2 hfile hopened.content
    (hopened.phases phase hmem) hrunning
  refine ⟨hadvanced.content, ?_⟩
  intro other hother
  rcases List.mem_or_eq_of_mem_set hother with hother | rfl
  · exact sound_mono hadvanced.kept (hopened.phases other hother)
  · exact hadvanced.sound

theorem opened_run (hfile : Satisfies file) (run : (opening file).Run h s) : Opened file s := by
  refine run.invariant ?_ fun s a r s' hopened hstep => opened_step hfile hopened hstep
  rintro s ⟨rfl, hreading⟩
  refine ⟨.inl rfl, fun phase hphase => ?_⟩
  rw [hreading phase hphase]
  trivial

/-- What one step of a run did. -/
theorem entry_advanced (hfile : Satisfies file) (run : (opening file).Run h s)
    {e : Entry Opening (Nat × World) Unit} (he : e ∈ h) :
    ∃ phase, e.before.phases[e.action.1]? = some phase ∧ phase.Running ∧
      e.after.phases = e.before.phases.set e.action.1 (phase.advance e.action.2 e.before.file).1 ∧
      Advanced file e.before.file e.action.2 (phase.advance e.action.2 e.before.file).1 e.after.file := by
  obtain ⟨front, back, hcut⟩ := List.append_of_mem he
  obtain ⟨hrun, phase, hphase, hrunning, hafter⟩ := run.split hcut
  have hopened := opened_run hfile hrun
  refine ⟨phase, hphase, hrunning, by rw [hafter], ?_⟩
  rw [hafter]
  exact advance_advanced _ hfile hopened.content (hopened.phases phase (List.mem_of_getElem? hphase))
    hrunning

/-- The steps a process has taken, and those it has before it. -/
theorem taken_le (run : (opening file).Run h s) {i : Nat} {phase : Phase}
    (hphase : s.phases[i]? = some phase) :
    (h.countP fun e => decide (e.action.1 = i)) + phase.remaining ≤ 7 := by
  induction run generalizing phase with
  | nil hstart =>
    rw [hstart.2 phase (List.mem_of_getElem? hphase)]
    exact Nat.le_refl 7
  | @snoc h s s' a r run hstep ih =>
    obtain ⟨mover, hmover, hrunning, rfl⟩ := hstep
    rw [List.countP_append, List.countP_singleton]
    simp only [decide_eq_true_eq]
    dsimp only at hphase
    by_cases hmine : a.1 = i
    · obtain rfl := hmine
      rw [List.getElem?_set_self (List.getElem?_eq_some_iff.mp hmover).1] at hphase
      obtain rfl := Option.some.inj hphase
      have hless := advance_remaining hrunning a.2 s.file
      have hbefore := ih hmover
      rw [if_pos rfl]
      omega
    · rw [List.getElem?_set_ne hmine] at hphase
      rw [if_neg hmine]
      exact ih hphase

/-- A process whose surroundings were healthy at each of its steps does not end
in an error. -/
theorem done_ok_of_healthy (hfile : Satisfies file) (run : (opening file).Run h s) {i : Nat}
    {result : Outcome OpenError Unit} (hdone : s.phases[i]? = some (.done result))
    (hhealthy : ∀ e ∈ h, e.action.1 = i → Healthy file.userCount e.action.2) : result = .ok () := by
  induction run with
  | nil hstart =>
    have hreading := hstart.2 _ (List.mem_of_getElem? hdone)
    cases hreading
  | @snoc h s s' a r run hstep ih =>
    have hopened := opened_run hfile run
    obtain ⟨mover, hmover, hrunning, rfl⟩ := hstep
    dsimp only at hdone
    by_cases hmine : a.1 = i
    · obtain rfl := hmine
      rw [List.getElem?_set_self (List.getElem?_eq_some_iff.mp hmover).1] at hdone
      have hadvanced := advance_advanced a.2 hfile hopened.content
        (hopened.phases mover (List.mem_of_getElem? hmover)) hrunning
      have hlast := hhealthy ⟨s, a, r, _⟩ (List.mem_append_right _ List.mem_cons_self) rfl
      exact hadvanced.healthy hlast result (Option.some.inj hdone)
    · rw [List.getElem?_set_ne hmine] at hdone
      exact ih hdone fun e he => hhealthy e (List.mem_append_left _ he)

end Openings

/-- What one process does to a file on its own: it migrates it, or fails for a
cause outside and leaves it as it was. -/
def OpensAlone (file : DatabaseFile) (world : World) : Prop :=
  (∃ file', Migration.initializeSchema.run world file = (.ok (), file') ∧ Migrated file file') ∨
    (∃ result, Migration.initializeSchema.run world file = (result, file) ∧ result ≠ .ok ()) ∧
      ¬Healthy file.userCount world

/-- What a run of any number of processes has come to. -/
structure OpensTogether (file : DatabaseFile) (h : List (Entry Opening (Nat × World) Unit))
    (s : Opening) : Prop where
  /-- The file is as it was, or migrated. -/
  content : s.file = file ∨ Migrated file s.file
  /-- A process that returned finds it migrated. -/
  migrated : ∀ i : Nat, s.phases[i]? = some (.done (.ok ())) → Migrated file s.file
  /-- From the first return on the file stays what it is. -/
  settled : ∀ e ∈ h, Phase.done (.ok ()) ∈ e.before.phases → e.after.file = e.before.file
  /-- A step that ends in an error or a panic changes nothing. -/
  untouched : ∀ e ∈ h, ∀ result, e.after.phases[e.action.1]? = some (.done result) →
    result ≠ .ok () → e.after.file = e.before.file
  /-- A process fails for a cause of its own. -/
  healthy : ∀ (i : Nat) result, s.phases[i]? = some (.done result) →
    (∀ e ∈ h, e.action.1 = i → Healthy file.userCount e.action.2) → result = .ok ()
  /-- A process goes on until it has returned, and takes seven steps at most. -/
  running : ∀ (i : Nat) phase, s.phases[i]? = some phase → phase.Running →
    ∀ world, ∃ s', (opening file).step s (i, world) () s'
  bounded : ∀ (i : Nat) phase, s.phases[i]? = some phase →
    (h.countP fun e => decide (e.action.1 = i)) + phase.remaining ≤ 7

/-- **Migration.** Opening a file of version 0, 1 or 2 that satisfies its schema
brings it to version 3 with every user, token and scope preserved, or leaves it as
it was; and any number of processes that open it at once end in one such file. -/
theorem identity_migration {file : DatabaseFile} (hfile : Satisfies file) :
    (∀ world, OpensAlone file world) ∧
      ∀ h s, (opening file).Run h s → OpensTogether file h s := by
  constructor
  · intro world
    have hsettles : Txn.Settles (excuse file.userCount world) Migration.initializeSchema world (.start file)
        fun _ t => Migration.Finished file t.stored :=
      Migration.initializeSchema_settles (s := .start file) (.inl hfile) rfl rfl
    rcases run_settles (Migration.Finished file) Migration.initializeSchema_allOrNothing hsettles with
      ⟨file', hrun, hfinished⟩ | ⟨result, stop, hrun, hstop, hexcuse⟩
    · exact .inl ⟨file', hrun, (finished_migrated hfile (.inl rfl) hfinished).1⟩
    · have hstopped : Advanced file file world (.done result) file :=
        stopped (.inl rfl) hstop hexcuse
      refine .inr ⟨⟨result, hrun, ?_⟩, ?_⟩
      · rintro rfl
        cases hstop
      · intro hhealthy
        obtain rfl := hstopped.healthy hhealthy result rfl
        cases hstop
  · intro h s run
    have hopened := opened_run hfile run
    exact {
      content := hopened.content
      migrated := fun i hdone => hopened.phases _ (List.mem_of_getElem? hdone)
      settled := by
        intro e he hdone
        obtain ⟨front, back, hcut⟩ := List.append_of_mem he
        obtain ⟨phase, -, -, -, hadvanced⟩ := entry_advanced hfile run he
        exact hadvanced.kept ((opened_run hfile (run.split hcut).1).phases _ hdone)
      untouched := by
        intro e he result hdone hne
        obtain ⟨phase, hphase, -, hafter, hadvanced⟩ := entry_advanced hfile run he
        rw [hafter, List.getElem?_set_self (List.getElem?_eq_some_iff.mp hphase).1] at hdone
        exact hadvanced.undone result (Option.some.inj hdone) hne
      healthy := fun i result hdone hhealthy => done_ok_of_healthy hfile run hdone hhealthy
      running := fun i phase hphase hrunning world => ⟨_, phase, hphase, hrunning, rfl⟩
      bounded := fun i phase hphase => taken_le run hphase }

/-- A file of version 1 with one user and one token. -/
def legacyFile : DatabaseFile where
  userVersion := 1
  users := some ⟨[⟨⟨"usr_ada".toList⟩, "ada".toList, 1⟩], List.nodup_singleton _⟩
  organizations := none
  memberships := none
  tokens := some ⟨none, none, false,
    ⟨[⟨"5f".toList, ⟨"usr_ada".toList⟩, none, 1, none⟩], List.nodup_singleton _⟩⟩
  tokensV2 := none
  indexes := [("idx_tokens_principal", .tokens)]

theorem legacyFile_satisfies : Satisfies legacyFile := by
  refine .legacy (.inr rfl) ?_ ?_
  · intro row hrow
    obtain rfl := List.mem_singleton.mp hrow
    decide
  · intro index hindex
    exact List.mem_singleton.mp hindex

/-- A world in which nothing fails. -/
def calmWorld : World := ⟨fun _ => 7, fun _ => none, fun _ => some fun _ => 0⟩

/-- One process migrates the file above. -/
theorem identity_migration_legacy :
    ∃ file', Migration.initializeSchema.run calmWorld legacyFile = (.ok (), file') ∧
      Migrated legacyFile file' := by
  rcases (identity_migration legacyFile_satisfies).1 calmWorld with h | ⟨-, hunhealthy⟩
  · exact h
  · refine absurd ⟨fun _ => rfl, fun n _ => ⟨_, rfl⟩, ?_⟩ hunhealthy
    -- one draw has no second one to agree with
    intro m n bytes bytes' hlt hn
    have hcount : legacyFile.userCount = 1 := rfl
    omega

end CamelidEnterprise.Identity

import CamelidEnterprise.Identity.Migration

/-!
# Camelid Enterprise — what an unfinished transaction leaves

A call of the store and an opening of its file either return or leave the database
as it was. Nothing gives this for free: a statement outside a transaction is stored
at once. It holds because of where the source puts `begin_write` and `commit`, and
each function is gone through for it.

* `code_allOrNothing` — the calls of the store;
* `initializeSchema_allOrNothing`, `underLock_allOrNothing` — the migration;
* `run_kept` and `Migration.run_kept` — what a call, or an opening, that stops leaves.
-/

namespace CamelidEnterprise.Identity

open Foundation
open Txn (Keeps AllOrNothing Locked Anywhere)

variable {pre : Bool → Prop}

-- ---------------------------------------------------------------------------
-- The store
-- ---------------------------------------------------------------------------

theorem query_keeps {α : Type} (read : Database → α) :
    Keeps Session.toConnection pre pre (query read) := by
  intro w s hpre
  unfold query statement
  cases w.failure s.statements with
  | some message => exact ⟨rfl, fun _ h => by cases h⟩
  | none => exact ⟨s.stored_write_view, fun _ _ => hpre⟩

/-- Under the lock a statement stores nothing. -/
theorem statement_keeps {α : Type} (run : Database → Except String (α × Database)) :
    Keeps Session.toConnection Locked Locked (statement run) := by
  intro w s hlocked
  unfold statement
  cases w.failure s.statements with
  | some message => exact ⟨rfl, fun _ h => by cases h⟩
  | none =>
    rcases run s.db with message | ⟨a, db⟩
    · exact ⟨rfl, fun _ h => by cases h⟩
    · exact ⟨Connection.stored_write_locked hlocked db, fun _ _ => hlocked⟩

/-- A statement that fails stores nothing, with the lock or without. -/
theorem statement_allOrNothing {α : Type} (run : Database → Except String (α × Database)) :
    AllOrNothing Session.toConnection pre (statement run) := by
  intro w s _ hresult
  unfold statement at hresult ⊢
  cases hfailure : w.failure s.statements with
  | some message => rfl
  | none =>
    rw [hfailure] at hresult
    rcases hrun : run s.db with message | ⟨a, db⟩
    · rfl
    · rw [hrun] at hresult
      exact absurd rfl (hresult a)

theorem beginWrite_keeps : Keeps Session.toConnection pre Locked beginWrite := by
  intro w s _
  unfold beginWrite control
  cases w.failure s.statements with
  | some message => exact ⟨rfl, fun _ h => by cases h⟩
  | none => exact ⟨rfl, fun _ _ => rfl⟩

theorem commit_allOrNothing : AllOrNothing Session.toConnection pre commit := by
  intro w s _ hresult
  unfold commit control at hresult ⊢
  cases hfailure : w.failure s.statements with
  | some message => rfl
  | none =>
    rw [hfailure] at hresult
    exact absurd rfl (hresult ())

theorem unixNow_keeps : Keeps Session.toConnection pre pre unixNow :=
  fun _ _ hpre => ⟨rfl, fun _ _ => hpre⟩

theorem randomHex_keeps (lenBytes : Nat) :
    Keeps Session.toConnection pre pre (randomHex lenBytes) := by
  refine .expect fun w s hex t h => ?_
  cases hrandom : w.random s.draws with
  | none =>
    rw [hrandom] at h
    cases h
  | some bytes =>
    rw [hrandom] at h
    rw [← (Prod.mk.inj (Option.some.inj h)).2]

theorem randomPrincipalId_keeps : Keeps Session.toConnection pre pre randomPrincipalId :=
  (randomHex_keeps _).bind fun _ => .pure _

theorem randomOrganizationId_keeps : Keeps Session.toConnection pre pre randomOrganizationId :=
  (randomHex_keeps _).bind fun _ => .pure _

theorem requireOrganization_keeps (o : OrganizationId) :
    Keeps Session.toConnection pre pre (requireOrganization o) := by
  refine (query_keeps _).bind fun found => ?_
  split
  · exact .pure ()
  · exact .throw _

theorem requirePrincipal_keeps (p : PrincipalId) :
    Keeps Session.toConnection pre pre (requirePrincipal p) := by
  refine (query_keeps _).bind fun found => ?_
  split
  · exact .pure ()
  · exact .throw _

theorem issueTokenInTransaction_keeps (hashToken : Str → Str) (p : PrincipalId) (o : OrganizationId)
    (lifetime : TokenLifetime) :
    Keeps Session.toConnection Locked Locked (issueTokenInTransaction hashToken p o lifetime) := by
  refine (requirePrincipal_keeps p).bind fun _ => ?_
  refine (requireOrganization_keeps o).bind fun _ => ?_
  refine (query_keeps _).bind fun isMember => ?_
  split
  · exact (randomHex_keeps _).bind fun hex => unixNow_keeps.bind fun now =>
      (statement_keeps _).bind fun _ => .pure _
  · exact .throw _

theorem lookupCredential_keeps (hashToken : Str → Str) (token : Str) :
    Keeps Session.toConnection pre pre (lookupCredential hashToken token) :=
  (query_keeps _).bind fun found => .okOr _ found

theorem stillValid_keeps (c : Credential) (now : Int) :
    Keeps Session.toConnection pre pre (c.stillValid now) := by
  unfold Credential.stillValid
  split
  · exact .throw _
  · exact .pure c

theorem resolve_keeps (lifetime : RotationLifetime) (c : Credential) :
    Keeps Session.toConnection pre pre (lifetime.resolve c) := by
  cases lifetime with
  | Replaced lifetime => exact .pure lifetime
  | Preserved =>
    unfold RotationLifetime.resolve Credential.issuedLifetime
    dsimp only
    split
    · exact .pure _
    · exact unixNow_keeps.bind fun now => .pure _

theorem onlyOrganization_keeps (p : PrincipalId) (organizations : List OrganizationId) :
    Keeps Session.toConnection pre pre (onlyOrganization p organizations) := by
  unfold onlyOrganization
  split
  · exact .pure _
  · refine (query_keeps _).bind fun found => ?_
    split
    · exact .throw _
    · exact .throw _
  · exact .throw _

/-- **All or nothing.** Whatever a call does before it stops, it returns or stores nothing: each
either makes one statement, or makes them all between `begin_write` and `commit`. -/
theorem code_allOrNothing (hashToken : Str → Str) (operation : Operation) :
    AllOrNothing Session.toConnection Anywhere (operation.code hashToken) := by
  cases operation with
  | createUser name =>
    refine AllOrNothing.returns ?_ _
    refine randomPrincipalId_keeps.andThen fun principal => ?_
    refine randomOrganizationId_keeps.andThen fun organization => ?_
    refine beginWrite_keeps.andThen fun _ => ?_
    refine unixNow_keeps.andThen fun now => ?_
    refine (statement_keeps _).andThen fun _ => ?_
    refine (statement_keeps _).andThen fun _ => ?_
    refine (statement_keeps _).andThen fun _ => ?_
    exact commit_allOrNothing.returns _
  | createOrganization name =>
    refine AllOrNothing.returns ?_ _
    refine randomOrganizationId_keeps.andThen fun organization => ?_
    refine unixNow_keeps.andThen fun now => ?_
    exact (statement_allOrNothing _).returns _
  | createUserInOrganization name organization =>
    refine AllOrNothing.returns ?_ _
    refine randomPrincipalId_keeps.andThen fun principal => ?_
    refine beginWrite_keeps.andThen fun _ => ?_
    refine (requireOrganization_keeps organization).andThen fun _ => ?_
    refine unixNow_keeps.andThen fun now => ?_
    refine (statement_keeps _).andThen fun _ => ?_
    refine (statement_keeps _).andThen fun _ => ?_
    exact commit_allOrNothing.returns _
  | addPrincipalToOrganization principal organization =>
    refine AllOrNothing.returns ?_ _
    refine beginWrite_keeps.andThen fun _ => ?_
    refine (requireOrganization_keeps organization).andThen fun _ => ?_
    refine (requirePrincipal_keeps principal).andThen fun _ => ?_
    refine unixNow_keeps.andThen fun now => ?_
    exact (statement_keeps _).andThen fun _ => commit_allOrNothing
  | removePrincipalFromOrganization principal organization =>
    refine AllOrNothing.returns ?_ _
    refine beginWrite_keeps.andThen fun _ => ?_
    refine (requirePrincipal_keeps principal).andThen fun _ => ?_
    refine (requireOrganization_keeps organization).andThen fun _ => ?_
    refine (statement_keeps _).andThen fun removed => ?_
    split
    · exact .throw _
    · exact commit_allOrNothing
  | issueToken principal lifetime =>
    refine AllOrNothing.returns ?_ _
    refine beginWrite_keeps.andThen fun _ => ?_
    refine (query_keeps _).andThen fun organizations => ?_
    refine (onlyOrganization_keeps principal organizations).andThen fun organization => ?_
    refine (issueTokenInTransaction_keeps hashToken principal organization lifetime).andThen
      fun token => ?_
    exact commit_allOrNothing.returns _
  | issueTokenForOrganization principal organization lifetime =>
    refine AllOrNothing.returns ?_ _
    refine beginWrite_keeps.andThen fun _ => ?_
    refine (issueTokenInTransaction_keeps hashToken principal organization lifetime).andThen
      fun token => ?_
    exact commit_allOrNothing.returns _
  | rotateToken token lifetime =>
    refine AllOrNothing.returns ?_ _
    refine beginWrite_keeps.andThen fun _ => ?_
    refine (lookupCredential_keeps hashToken token).andThen fun found => ?_
    refine unixNow_keeps.andThen fun now => ?_
    refine (stillValid_keeps found now).andThen fun credential => ?_
    refine (resolve_keeps lifetime credential).andThen fun resolved => ?_
    refine (issueTokenInTransaction_keeps hashToken _ _ resolved).andThen fun replacement => ?_
    refine (statement_keeps _).andThen fun retired => ?_
    split
    · exact .throw _
    · exact commit_allOrNothing.returns _
  | revokeToken token =>
    refine AllOrNothing.returns ?_ _
    exact (statement_allOrNothing _).returns _
  | resolveContext token =>
    refine AllOrNothing.returns ?_ _
    refine (lookupCredential_keeps hashToken token).andThen fun found => ?_
    refine unixNow_keeps.andThen fun now => ?_
    exact ((stillValid_keeps found now).bind fun _ => .pure _).allOrNothing

/-- A call that does not return changes nothing. -/
theorem run_kept {hashToken : Str → Str} {call : Call} {db db' : Database}
    {result : Outcome IdentityError Answer} (h : call.run hashToken db = (result, db'))
    (hresult : ∀ a, result ≠ .ok a) : db' = db := by
  unfold Call.run at h
  obtain ⟨hreturned, hdb⟩ := Prod.mk.inj h
  have hkept := code_allOrNothing hashToken call.operation call.world (.start db) trivial
    fun a ha => hresult a (hreturned.symm.trans ha)
  exact hdb.symm.trans hkept

-- ---------------------------------------------------------------------------
-- The migration
-- ---------------------------------------------------------------------------

namespace Migration

theorem query_keeps {α : Type} (read : DatabaseFile → Except String α) :
    Keeps MigrationSession.toConnection pre pre (query read) := by
  intro w s hpre
  unfold query statement
  cases w.failure s.statements with
  | some message => exact ⟨rfl, fun _ h => by cases h⟩
  | none =>
    dsimp only
    rcases read s.file with message | a
    · exact ⟨rfl, fun _ h => by cases h⟩
    · exact ⟨s.stored_write_view, fun _ _ => hpre⟩

theorem statement_keeps {α : Type} (run : DatabaseFile → Except OpenError (α × DatabaseFile)) :
    Keeps MigrationSession.toConnection Locked Locked (statement run) := by
  intro w s hlocked
  unfold statement
  cases w.failure s.statements with
  | some message => exact ⟨rfl, fun _ h => by cases h⟩
  | none =>
    rcases run s.file with message | ⟨a, file⟩
    · exact ⟨rfl, fun _ h => by cases h⟩
    · exact ⟨Connection.stored_write_locked hlocked file, fun _ _ => hlocked⟩

theorem beginWrite_keeps : Keeps MigrationSession.toConnection pre Locked beginWrite := by
  intro w s _
  unfold beginWrite control
  cases w.failure s.statements with
  | some message => exact ⟨rfl, fun _ h => by cases h⟩
  | none => exact ⟨rfl, fun _ _ => rfl⟩

theorem commit_allOrNothing : AllOrNothing MigrationSession.toConnection pre commit := by
  intro w s _ hresult
  unfold commit control at hresult ⊢
  cases hfailure : w.failure s.statements with
  | some message => rfl
  | none =>
    rw [hfailure] at hresult
    exact absurd rfl (hresult ())

theorem executeBatch_keeps (changes : List (DatabaseFile → Except String DatabaseFile)) :
    Keeps MigrationSession.toConnection Locked Locked (executeBatch changes) := by
  induction changes with
  | nil => exact .pure ()
  | cons change changes ih => exact (statement_keeps _).bind fun _ => ih

theorem validate_keeps (checks : List (DatabaseFile → Except OpenError Unit)) :
    Keeps MigrationSession.toConnection pre pre (validate checks) := by
  induction checks with
  | nil => exact .pure ()
  | cons check checks ih =>
    refine Keeps.bind (fun w s hpre => ?_) fun _ => ih
    unfold statement
    cases w.failure s.statements with
    | some message => exact ⟨rfl, fun _ h => by cases h⟩
    | none =>
      dsimp only
      rcases check s.file with error | a
      · exact ⟨rfl, fun _ h => by cases h⟩
      · exact ⟨s.stored_write_view, fun _ _ => hpre⟩

theorem randomOrganizationId_keeps :
    Keeps MigrationSession.toConnection pre pre randomOrganizationId := by
  refine .expect fun w s organization t h => ?_
  cases hrandom : w.random s.draws with
  | none =>
    rw [hrandom] at h
    cases h
  | some bytes =>
    rw [hrandom] at h
    rw [← (Prod.mk.inj (Option.some.inj h)).2]

theorem personalOrganizations_keeps (principals : List (PrincipalId × Str)) :
    Keeps MigrationSession.toConnection Locked Locked (personalOrganizations principals) := by
  induction principals with
  | nil => exact .pure ()
  | cons principal principals ih =>
    refine Keeps.bind ?_ fun _ => ih
    refine randomOrganizationId_keeps.bind fun organization => ?_
    refine Keeps.bind (fun _ _ hpre => ⟨rfl, fun _ _ => hpre⟩) fun now => ?_
    exact (statement_keeps _).bind fun _ => (statement_keeps _).bind fun _ => statement_keeps _

theorem migrateV1ToV2_keeps : Keeps MigrationSession.toConnection Locked Locked migrateV1ToV2 := by
  refine (query_keeps _).bind fun orphanedPrincipal => ?_
  split
  · exact .throw _
  · refine (executeBatch_keeps _).bind fun _ => ?_
    refine (query_keeps _).bind fun principals => ?_
    exact (personalOrganizations_keeps principals).bind fun _ => executeBatch_keeps _

theorem initializeTables_keeps (found : Bool × Bool × Bool × Bool) :
    Keeps MigrationSession.toConnection Locked Locked (initializeTables found) := by
  unfold initializeTables
  split
  · exact executeBatch_keeps _
  · exact migrateV1ToV2_keeps.bind fun _ => executeBatch_keeps _
  · exact .throw _

theorem migrateFrom_keeps (version : Int) :
    Keeps MigrationSession.toConnection Locked Locked (migrateFrom version) := by
  unfold migrateFrom
  split
  · exact (query_keeps _).bind fun _ => (query_keeps _).bind fun _ => (query_keeps _).bind fun _ =>
      (query_keeps _).bind fun _ => initializeTables_keeps _
  · exact migrateV1ToV2_keeps.bind fun _ => executeBatch_keeps _
  · exact executeBatch_keeps _
  · exact validate_keeps _
  · exact .throw _

/-- The transaction that does not reach its `commit` leaves the file as it was. -/
theorem underLock_allOrNothing : AllOrNothing MigrationSession.toConnection Anywhere underLock := by
  refine beginWrite_keeps.andThen fun _ => ?_
  refine (query_keeps _).andThen fun version => ?_
  exact (migrateFrom_keeps version).andThen fun _ => commit_allOrNothing

theorem initializeSchema_allOrNothing :
    AllOrNothing MigrationSession.toConnection Anywhere initializeSchema := by
  refine (query_keeps _).andThen fun version => ?_
  split
  · exact (validate_keeps _).allOrNothing
  · exact underLock_allOrNothing

/-- A migration that does not return leaves the file as it was. -/
theorem run_kept {migration : Migration Unit} {w : World} {file : DatabaseFile}
    (hmigration : AllOrNothing MigrationSession.toConnection Anywhere migration)
    (h : (migration.run w file).1 ≠ .ok ()) : (migration.run w file).2 = file :=
  hmigration w (.start file) trivial fun _ => h

end Migration

end CamelidEnterprise.Identity

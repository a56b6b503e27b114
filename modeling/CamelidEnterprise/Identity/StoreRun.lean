import CamelidEnterprise.Identity.Rollback

/-!
# Camelid Enterprise — what a run of the identity store guarantees

The history of a store says which tokens stand: `Minted` reads off an issue or a
rotation, `Ends` a rotation, a revocation or the removal of the membership a token
hangs off, and `Standing` is minted and not ended since. None of the three looks at
the database.

* `step_member`, `step_row` — what one call does to the memberships and to the row
  of a token, whatever it returns;
* `run_agrees` — after any run the memberships are those that were joined and not
  removed, and the row of a token is the credential it stands for;
* `identity_run` — what the callers of the store can rely on.
-/

namespace CamelidEnterprise.Identity

open Foundation

-- ---------------------------------------------------------------------------
-- Statements on the tables
-- ---------------------------------------------------------------------------

theorem isMember_iff {db : Database} {p : PrincipalId} {o : OrganizationId} :
    db.isMember p o = true ↔ db.memberships.find (o, p) ≠ none := by
  unfold Database.isMember
  rw [Option.isSome_iff_ne_none]

/-- A statement that touches neither memberships nor tokens. -/
def Kept (db db' : Database) : Prop :=
  db'.memberships = db.memberships ∧ db'.tokens = db.tokens

/-- A statement that adds a membership, or finds it there. -/
def Joined (db db' : Database) (p : PrincipalId) (o : OrganizationId) : Prop :=
  db'.tokens = db.tokens ∧
    ∀ p' o', db'.isMember p' o' = true ↔ db.isMember p' o' = true ∨ (p' = p ∧ o' = o)

theorem insertUser_ok {db db' : Database} {row : UserRow} (h : db.insertUser row = .ok db') :
    Kept db db' := by
  unfold Database.insertUser at h
  split at h
  · obtain rfl := Except.ok.inj h
    exact ⟨rfl, rfl⟩
  · cases h

theorem insertOrganization_ok {db db' : Database} {row : OrganizationRow}
    (h : db.insertOrganization row = .ok db') : Kept db db' := by
  unfold Database.insertOrganization at h
  split at h
  · obtain rfl := Except.ok.inj h
    exact ⟨rfl, rfl⟩
  · cases h

theorem insertMembership_ok {db db' : Database} {row : MembershipRow}
    (h : db.insertMembership row = .ok db') : Joined db db' row.principalId row.organizationId := by
  unfold Database.insertMembership at h
  split at h
  · split at h
    · cases h
    · split at h
      · cases h
      · obtain rfl := Except.ok.inj h
        refine ⟨rfl, fun p' o' => ?_⟩
        rw [isMember_iff, isMember_iff]
        simp only [Table.find_insertNew, MembershipRow.key, Prod.mk.injEq]
        by_cases hnew : row.organizationId = o' ∧ row.principalId = p'
        · simp [hnew]
        · have hother : ¬(p' = row.principalId ∧ o' = row.organizationId) := by
            rintro ⟨rfl, rfl⟩
            exact hnew ⟨rfl, rfl⟩
          simp [hnew, hother]
  · cases h

theorem insertMembershipOrIgnore_ok {db db' : Database} {row : MembershipRow}
    (h : db.insertMembershipOrIgnore row = .ok db') :
    Joined db db' row.principalId row.organizationId := by
  unfold Database.insertMembershipOrIgnore at h
  split at h
  · exact insertMembership_ok h
  · rename_i htaken
    obtain rfl := Except.ok.inj h
    refine ⟨rfl, fun p' o' => ?_⟩
    constructor
    · exact Or.inl
    · rintro (hold | ⟨rfl, rfl⟩)
      · exact hold
      · exact isMember_iff.mpr htaken

theorem insertToken_ok {db db' : Database} {row : TokenRow} (h : db.insertToken row = .ok db') :
    db'.memberships = db.memberships ∧ db.tokens.find row.tokenHash = none ∧
      ∀ k, db'.tokens.find k = if row.tokenHash = k then some row else db.tokens.find k := by
  unfold Database.insertToken at h
  split at h
  · rename_i hfree
    split at h
    · cases h
    · obtain rfl := Except.ok.inj h
      exact ⟨rfl, hfree, fun k => by rw [Table.find_insertNew]⟩
  · cases h

theorem find_deleteToken (db : Database) (tokenHash k : Str) :
    (db.deleteToken tokenHash).2.tokens.find k =
      if k = tokenHash then none else db.tokens.find k :=
  Table.find_delete_key

theorem isMember_deleteMembership (db : Database) (p p' : PrincipalId) (o o' : OrganizationId) :
    (db.deleteMembership p o).2.isMember p' o' = true ↔
      db.isMember p' o' = true ∧ ¬(p' = p ∧ o' = o) := by
  rw [isMember_iff, isMember_iff]
  show (db.memberships.delete _).find _ ≠ none ↔ _
  rw [Table.find_delete_key]
  by_cases hsame : p' = p ∧ o' = o
  · simp [hsame]
  · have hother : ¬(o' = o ∧ p' = p) := fun h => hsame ⟨h.2, h.1⟩
    simp [hsame, hother]

/-- The cascade: the tokens of the membership go, the others stay. -/
theorem find_deleteMembership (db : Database) (p : PrincipalId) (o : OrganizationId) (k : Str)
    (row : TokenRow) :
    (db.deleteMembership p o).2.tokens.find k = some row ↔
      db.tokens.find k = some row ∧ ¬(row.principalId = p ∧ row.organizationId = o) := by
  show (db.tokens.delete _).find k = some row ↔ _
  rw [Table.find_delete, Option.filter_eq_some_iff]
  have hmembership : row.membership = (o, p) ↔ row.principalId = p ∧ row.organizationId = o := by
    rw [TokenRow.membership, Prod.mk.injEq, and_comm]
  simp only [Bool.not_eq_true', decide_eq_false_iff_not, hmembership]

theorem mem_organizationsOf {db : Database} {p : PrincipalId} {o : OrganizationId} :
    o ∈ db.organizationsOf p ↔ db.isMember p o = true := by
  rw [isMember_iff, Option.ne_none_iff_exists']
  unfold Database.organizationsOf
  rw [List.mem_map]
  constructor
  · rintro ⟨row, hrow, rfl⟩
    obtain ⟨hmem, hp⟩ := List.mem_filter.mp hrow
    obtain rfl : row.principalId = p := by simpa using hp
    exact ⟨row, Table.find_eq_some.mpr ⟨hmem, rfl⟩⟩
  · rintro ⟨row, hrow⟩
    obtain ⟨hmem, hkey⟩ := Table.find_eq_some.mp hrow
    obtain ⟨ho, hp⟩ := Prod.mk.inj hkey
    exact ⟨row, List.mem_filter.mpr ⟨hmem, by simpa using hp⟩, ho⟩

-- ---------------------------------------------------------------------------
-- Steps of a transaction
-- ---------------------------------------------------------------------------

@[simp] theorem Session.after_db (s : Session) (db : Database) : (s.after db).db = db := rfl

@[simp] theorem Session.after_readings (s : Session) (db : Database) :
    (s.after db).readings = s.readings := rfl

@[simp] theorem Session.after_draws (s : Session) (db : Database) :
    (s.after db).draws = s.draws := rfl

theorem statement_eq_ok {α : Type} {run : Database → Except String (α × Database)} {w : World}
    {s s' : Session} {a : α} :
    statement run w s = (.ok a, s') ↔
      w.failure s.statements = none ∧ ∃ db, run s.db = .ok (a, db) ∧ s' = s.after db := by
  unfold statement
  cases hfailure : w.failure s.statements with
  | some message => simp
  | none =>
    cases hrun : run s.db with
    | error message => simp
    | ok p =>
      obtain ⟨a', db⟩ := p
      simp only [Outcome.ok.injEq, Prod.mk.injEq, Except.ok.injEq, true_and]
      constructor
      · rintro ⟨rfl, rfl⟩
        exact ⟨db, ⟨rfl, rfl⟩, rfl⟩
      · rintro ⟨db', ⟨rfl, rfl⟩, rfl⟩
        exact ⟨rfl, rfl⟩

@[simp] theorem query_eq_ok {α : Type} {read : Database → α} {w : World} {s s' : Session} {a : α} :
    query read w s = (.ok a, s') ↔
      w.failure s.statements = none ∧ read s.db = a ∧ s' = s.after s.db := by
  unfold query
  rw [statement_eq_ok]
  simp only [Except.ok.injEq, Prod.mk.injEq]
  constructor
  · rintro ⟨hfailure, db, ⟨ha, rfl⟩, hs⟩
    exact ⟨hfailure, ha, hs⟩
  · rintro ⟨hfailure, ha, hs⟩
    exact ⟨hfailure, s.db, ⟨ha, rfl⟩, hs⟩

/-- An `INSERT` that went through. -/
theorem insert_ok {change : Database → Except String Database} {w : World} {s s' : Session}
    (h : insert change w s = (.ok (), s')) : ∃ db, change s.db = .ok db ∧ s' = s.after db := by
  unfold insert at h
  obtain ⟨_, db, hrun, hs⟩ := statement_eq_ok.mp h
  cases hchange : change s.db with
  | error message =>
    rw [hchange] at hrun
    cases hrun
  | ok db' =>
    rw [hchange] at hrun
    obtain rfl : db' = db := (Prod.mk.inj (Except.ok.inj hrun)).2
    exact ⟨db', rfl, hs⟩

/-- A `DELETE` that went through. -/
theorem delete_ok {change : Database → Nat × Database} {w : World} {s s' : Session} {n : Nat}
    (h : delete change w s = (.ok n, s')) : n = (change s.db).1 ∧ s' = s.after (change s.db).2 := by
  unfold delete at h
  obtain ⟨_, db, hrun, hs⟩ := statement_eq_ok.mp h
  obtain ⟨hn, rfl⟩ := Prod.mk.inj (Except.ok.inj hrun.symm).symm
  exact ⟨by rw [hn], hs⟩

theorem control_eq_ok {change : Connection Database → Connection Database} {w : World}
    {s s' : Session} : control change w s = (.ok (), s') ↔
      w.failure s.statements = none ∧ s' = s.went (change s.toConnection) := by
  unfold control
  cases w.failure s.statements with
  | some message => simp
  | none => simp [eq_comm]

/-- A session in which the transaction has begun. -/
def Session.begun (s : Session) : Session := s.went s.toConnection.lock

@[simp] theorem Session.begun_db (s : Session) : s.begun.db = s.db := rfl

@[simp] theorem beginWrite_eq_ok {w : World} {s s' : Session} :
    beginWrite w s = (.ok (), s') ↔ w.failure s.statements = none ∧ s' = s.begun := control_eq_ok

/-- A session whose transaction is committed. -/
def Session.committed (s : Session) : Session := s.went s.toConnection.commit

@[simp] theorem Session.committed_stored (s : Session) : s.committed.stored = s.db := rfl

@[simp] theorem commit_eq_ok {w : World} {s s' : Session} :
    commit w s = (.ok (), s') ↔ w.failure s.statements = none ∧ s' = s.committed := control_eq_ok

/-- A session after one more reading of the clock. -/
def Session.clockRead (s : Session) : Session := { s with readings := s.readings + 1 }

@[simp] theorem Session.clockRead_db (s : Session) : s.clockRead.db = s.db := rfl

@[simp] theorem Session.clockRead_readings (s : Session) :
    s.clockRead.readings = s.readings + 1 := rfl

@[simp] theorem Session.clockRead_draws (s : Session) : s.clockRead.draws = s.draws := rfl

@[simp] theorem unixNow_eq_ok {w : World} {s s' : Session} {now : Int} :
    unixNow w s = (.ok now, s') ↔ w.clock s.readings = now ∧ s' = s.clockRead := by
  unfold unixNow
  simp only [Outcome.ok.injEq, Prod.mk.injEq]
  constructor
  · rintro ⟨hnow, rfl⟩
    exact ⟨hnow, rfl⟩
  · rintro ⟨hnow, rfl⟩
    exact ⟨hnow, rfl⟩

/-- A session after one more random draw. -/
def Session.drawn (s : Session) : Session := { s with draws := s.draws + 1 }

@[simp] theorem Session.drawn_db (s : Session) : s.drawn.db = s.db := rfl

@[simp] theorem Session.drawn_readings (s : Session) : s.drawn.readings = s.readings := rfl

@[simp] theorem Session.drawn_draws (s : Session) : s.drawn.draws = s.draws + 1 := rfl

/-- The hexadecimal text of a draw. -/
def World.hex (w : World) (draw lenBytes : Nat) : Option Str := (w.random draw).map (hexOf lenBytes)

@[simp] theorem randomHex_eq_ok {lenBytes : Nat} {w : World} {s s' : Session} {hex : Str} :
    randomHex lenBytes w s = (.ok hex, s') ↔ w.hex s.draws lenBytes = some hex ∧ s' = s.drawn := by
  unfold randomHex World.hex
  rw [Txn.expect_eq_ok]
  cases w.random s.draws with
  | none => simp
  | some bytes =>
    simp only [Option.map_some, Option.some.injEq, Prod.mk.injEq]
    constructor
    · rintro ⟨hhex, rfl⟩
      exact ⟨hhex, rfl⟩
    · rintro ⟨hhex, rfl⟩
      exact ⟨hhex, rfl⟩

-- ---------------------------------------------------------------------------
-- Operations that return
-- ---------------------------------------------------------------------------

theorem Kept.isMember {db db' : Database} (h : Kept db db') (p : PrincipalId) (o : OrganizationId) :
    db'.isMember p o = db.isMember p o := by
  unfold Database.isMember
  rw [h.1]

theorem randomPrincipalId_ok {w : World} {s s' : Session} {p : PrincipalId}
    (h : randomPrincipalId w s = (.ok p, s')) : s' = s.drawn := by
  unfold randomPrincipalId at h
  obtain ⟨hex, s₁, hhex, hret⟩ := Txn.bind_eq_ok.mp h
  simp only [randomHex_eq_ok, Txn.pure_eq_ok] at hhex hret
  rw [← hret.2, hhex.2]

/-- The id of an organization made from a draw. -/
def organizationOfDraw (w : World) (draw : Nat) : Option OrganizationId :=
  (w.hex draw organizationBytes).map fun hex => ⟨"org_".toList ++ hex⟩

theorem randomOrganizationId_ok {w : World} {s s' : Session} {o : OrganizationId}
    (h : randomOrganizationId w s = (.ok o, s')) :
    organizationOfDraw w s.draws = some o ∧ s' = s.drawn := by
  unfold randomOrganizationId at h
  obtain ⟨hex, s₁, hhex, hret⟩ := Txn.bind_eq_ok.mp h
  simp only [randomHex_eq_ok, Txn.pure_eq_ok] at hhex hret
  unfold organizationOfDraw
  rw [hhex.1, ← hret.1, ← hret.2, hhex.2]
  exact ⟨rfl, rfl⟩

theorem requireOrganization_ok {o : OrganizationId} {w : World} {s s' : Session}
    (h : requireOrganization o w s = (.ok (), s')) : s' = s.after s.db := by
  unfold requireOrganization at h
  obtain ⟨found, s₁, hfound, hret⟩ := Txn.bind_eq_ok.mp h
  split at hret
  · simp only [Txn.pure_eq_ok] at hret
    rw [← hret.2, (query_eq_ok.mp hfound).2.2]
  · simp at hret

theorem requirePrincipal_ok {p : PrincipalId} {w : World} {s s' : Session}
    (h : requirePrincipal p w s = (.ok (), s')) : s' = s.after s.db := by
  unfold requirePrincipal at h
  obtain ⟨found, s₁, hfound, hret⟩ := Txn.bind_eq_ok.mp h
  split at hret
  · simp only [Txn.pure_eq_ok] at hret
    rw [← hret.2, (query_eq_ok.mp hfound).2.2]
  · simp at hret

theorem createUser_ok {name : Str} {w : World} {db : Database} {s' : Session} {p : PrincipalId}
    (h : createUser name w (.start db) = (.ok p, s')) :
    ∃ o, organizationOfDraw w 1 = some o ∧ Joined db s'.stored p o := by
  unfold createUser at h
  obtain ⟨p₁, s₁, hprincipal, h⟩ := Txn.bind_eq_ok.mp h
  obtain ⟨o, s₂, horganization, h⟩ := Txn.bind_eq_ok.mp h
  obtain ⟨_, s₃, hbegin, h⟩ := Txn.bind_eq_ok.mp h
  obtain ⟨now, s₄, hnow, h⟩ := Txn.bind_eq_ok.mp h
  obtain ⟨_, s₅, huser, h⟩ := Txn.bind_eq_ok.mp h
  obtain ⟨_, s₆, hnewOrganization, h⟩ := Txn.bind_eq_ok.mp h
  obtain ⟨_, s₇, hmembership, h⟩ := Txn.bind_eq_ok.mp h
  obtain ⟨_, s₈, hcommit, h⟩ := Txn.bind_eq_ok.mp h
  obtain ⟨rfl, rfl⟩ := Txn.pure_eq_ok.mp h
  obtain rfl := randomPrincipalId_ok hprincipal
  obtain ⟨ho, rfl⟩ := randomOrganizationId_ok horganization
  obtain ⟨-, rfl⟩ := beginWrite_eq_ok.mp hbegin
  obtain ⟨-, rfl⟩ := unixNow_eq_ok.mp hnow
  obtain ⟨db₁, hdb₁, rfl⟩ := insert_ok huser
  obtain ⟨db₂, hdb₂, rfl⟩ := insert_ok hnewOrganization
  obtain ⟨db₃, hdb₃, rfl⟩ := insert_ok hmembership
  obtain ⟨-, rfl⟩ := commit_eq_ok.mp hcommit
  have hkept₁ : Kept db db₁ := insertUser_ok hdb₁
  have hkept₂ : Kept db₁ db₂ := insertOrganization_ok hdb₂
  obtain ⟨htokens, hmember⟩ := insertMembership_ok hdb₃
  refine ⟨o, ho, ?_, fun p' o' => ?_⟩
  · show db₃.tokens = db.tokens
    rw [htokens]
    show db₂.tokens = db.tokens
    rw [hkept₂.2, hkept₁.2]
  · have hmember' := hmember p' o'
    rw [Session.after_db, hkept₂.isMember, hkept₁.isMember] at hmember'
    exact hmember'

theorem createOrganization_ok {name : Str} {w : World} {db : Database} {s' : Session}
    {o : OrganizationId} (h : createOrganization name w (.start db) = (.ok o, s')) :
    Kept db s'.stored := by
  unfold createOrganization at h
  obtain ⟨o', s₁, horganization, h⟩ := Txn.bind_eq_ok.mp h
  obtain ⟨now, s₂, hnow, h⟩ := Txn.bind_eq_ok.mp h
  obtain ⟨_, s₃, hinsert, h⟩ := Txn.bind_eq_ok.mp h
  obtain ⟨rfl, rfl⟩ := Txn.pure_eq_ok.mp h
  obtain ⟨-, rfl⟩ := randomOrganizationId_ok horganization
  obtain ⟨-, rfl⟩ := unixNow_eq_ok.mp hnow
  obtain ⟨db₁, hdb₁, rfl⟩ := insert_ok hinsert
  exact insertOrganization_ok hdb₁

theorem createUserInOrganization_ok {name : Str} {o : OrganizationId} {w : World} {db : Database}
    {s' : Session} {p : PrincipalId}
    (h : createUserInOrganization name o w (.start db) = (.ok p, s')) : Joined db s'.stored p o := by
  unfold createUserInOrganization at h
  obtain ⟨p₁, s₁, hprincipal, h⟩ := Txn.bind_eq_ok.mp h
  obtain ⟨_, s₂, hbegin, h⟩ := Txn.bind_eq_ok.mp h
  obtain ⟨_, s₃, hrequire, h⟩ := Txn.bind_eq_ok.mp h
  obtain ⟨now, s₄, hnow, h⟩ := Txn.bind_eq_ok.mp h
  obtain ⟨_, s₅, huser, h⟩ := Txn.bind_eq_ok.mp h
  obtain ⟨_, s₆, hmembership, h⟩ := Txn.bind_eq_ok.mp h
  obtain ⟨_, s₇, hcommit, h⟩ := Txn.bind_eq_ok.mp h
  obtain ⟨rfl, rfl⟩ := Txn.pure_eq_ok.mp h
  obtain rfl := randomPrincipalId_ok hprincipal
  obtain ⟨-, rfl⟩ := beginWrite_eq_ok.mp hbegin
  obtain rfl := requireOrganization_ok hrequire
  obtain ⟨-, rfl⟩ := unixNow_eq_ok.mp hnow
  obtain ⟨db₁, hdb₁, rfl⟩ := insert_ok huser
  obtain ⟨db₂, hdb₂, rfl⟩ := insert_ok hmembership
  obtain ⟨-, rfl⟩ := commit_eq_ok.mp hcommit
  have hkept : Kept db db₁ := insertUser_ok hdb₁
  obtain ⟨htokens, hmember⟩ := insertMembership_ok hdb₂
  refine ⟨htokens.trans hkept.2, fun p' o' => ?_⟩
  have hmember' := hmember p' o'
  rw [Session.after_db, hkept.isMember] at hmember'
  exact hmember'

theorem addPrincipalToOrganization_ok {p : PrincipalId} {o : OrganizationId} {w : World}
    {db : Database} {s' : Session}
    (h : addPrincipalToOrganization p o w (.start db) = (.ok (), s')) : Joined db s'.stored p o := by
  unfold addPrincipalToOrganization at h
  obtain ⟨_, s₁, hbegin, h⟩ := Txn.bind_eq_ok.mp h
  obtain ⟨_, s₂, horganization, h⟩ := Txn.bind_eq_ok.mp h
  obtain ⟨_, s₃, hprincipal, h⟩ := Txn.bind_eq_ok.mp h
  obtain ⟨now, s₄, hnow, h⟩ := Txn.bind_eq_ok.mp h
  obtain ⟨_, s₅, hmembership, hcommit⟩ := Txn.bind_eq_ok.mp h
  obtain ⟨-, rfl⟩ := beginWrite_eq_ok.mp hbegin
  obtain rfl := requireOrganization_ok horganization
  obtain rfl := requirePrincipal_ok hprincipal
  obtain ⟨-, rfl⟩ := unixNow_eq_ok.mp hnow
  obtain ⟨db₁, hdb₁, rfl⟩ := insert_ok hmembership
  obtain ⟨-, rfl⟩ := commit_eq_ok.mp hcommit
  exact insertMembershipOrIgnore_ok hdb₁

theorem removePrincipalFromOrganization_ok {p : PrincipalId} {o : OrganizationId} {w : World}
    {db : Database} {s' : Session}
    (h : removePrincipalFromOrganization p o w (.start db) = (.ok (), s')) :
    s'.stored = (db.deleteMembership p o).2 := by
  unfold removePrincipalFromOrganization at h
  obtain ⟨_, s₁, hbegin, h⟩ := Txn.bind_eq_ok.mp h
  obtain ⟨_, s₂, hprincipal, h⟩ := Txn.bind_eq_ok.mp h
  obtain ⟨_, s₃, horganization, h⟩ := Txn.bind_eq_ok.mp h
  obtain ⟨removed, s₄, hdelete, h⟩ := Txn.bind_eq_ok.mp h
  obtain ⟨-, rfl⟩ := beginWrite_eq_ok.mp hbegin
  obtain rfl := requirePrincipal_ok hprincipal
  obtain rfl := requireOrganization_ok horganization
  obtain ⟨-, rfl⟩ := delete_ok hdelete
  split at h
  · simp at h
  · obtain ⟨-, rfl⟩ := commit_eq_ok.mp h
    rfl

section Tokens

variable {hashToken : Str → Str}

/-- The row of a credential. -/
def Credential.row (c : Credential) (tokenHash : Str) : TokenRow :=
  ⟨tokenHash, c.principalId, c.organizationId, c.createdAtUnix, c.expiresAtUnix⟩

/-- The statement that put a token's row in. -/
def TokenInserted (hashToken : Str → Str) (db db' : Database) (token : Str) (c : Credential) : Prop :=
  db'.memberships = db.memberships ∧ db.tokens.find (hashToken token) = none ∧
    ∀ k, db'.tokens.find k =
      if hashToken token = k then some (c.row (hashToken token)) else db.tokens.find k

theorem issueTokenInTransaction_ok {p : PrincipalId} {o : OrganizationId} {lifetime : TokenLifetime}
    {w : World} {s s' : Session} {token : Str}
    (h : issueTokenInTransaction hashToken p o lifetime w s = (.ok token, s')) :
    TokenInserted hashToken s.db s'.db token ⟨p, o, w.clock s.readings, lifetime.expiresAt⟩ := by
  unfold issueTokenInTransaction at h
  obtain ⟨_, s₁, hprincipal, h⟩ := Txn.bind_eq_ok.mp h
  obtain ⟨_, s₂, horganization, h⟩ := Txn.bind_eq_ok.mp h
  obtain ⟨isMember, s₃, hmember, h⟩ := Txn.bind_eq_ok.mp h
  obtain rfl := requirePrincipal_ok hprincipal
  obtain rfl := requireOrganization_ok horganization
  obtain ⟨-, -, rfl⟩ := query_eq_ok.mp hmember
  split at h
  · obtain ⟨hex, s₄, hhex, h⟩ := Txn.bind_eq_ok.mp h
    obtain ⟨now, s₅, hnow, h⟩ := Txn.bind_eq_ok.mp h
    obtain ⟨_, s₆, hinsert, h⟩ := Txn.bind_eq_ok.mp h
    obtain ⟨rfl, rfl⟩ := Txn.pure_eq_ok.mp h
    obtain ⟨-, rfl⟩ := randomHex_eq_ok.mp hhex
    obtain ⟨rfl, rfl⟩ := unixNow_eq_ok.mp hnow
    obtain ⟨db₁, hdb₁, rfl⟩ := insert_ok hinsert
    exact insertToken_ok hdb₁
  · simp at h

theorem issueTokenForOrganization_ok {p : PrincipalId} {o : OrganizationId}
    {lifetime : TokenLifetime} {w : World} {db : Database} {s' : Session} {token : Str}
    (h : issueTokenForOrganization hashToken p o lifetime w (.start db) = (.ok token, s')) :
    TokenInserted hashToken db s'.stored token ⟨p, o, w.clock 0, lifetime.expiresAt⟩ := by
  unfold issueTokenForOrganization at h
  obtain ⟨_, s₁, hbegin, h⟩ := Txn.bind_eq_ok.mp h
  obtain ⟨token', s₂, hissue, h⟩ := Txn.bind_eq_ok.mp h
  obtain ⟨_, s₃, hcommit, h⟩ := Txn.bind_eq_ok.mp h
  obtain ⟨rfl, rfl⟩ := Txn.pure_eq_ok.mp h
  obtain ⟨-, rfl⟩ := beginWrite_eq_ok.mp hbegin
  obtain ⟨-, rfl⟩ := commit_eq_ok.mp hcommit
  exact issueTokenInTransaction_ok hissue

theorem onlyOrganization_ok {p : PrincipalId} {organizations : List OrganizationId} {w : World}
    {s s' : Session} {o : OrganizationId}
    (h : onlyOrganization p organizations w s = (.ok o, s')) : organizations = [o] ∧ s' = s := by
  unfold onlyOrganization at h
  split at h
  · obtain ⟨rfl, rfl⟩ := Txn.pure_eq_ok.mp h
    exact ⟨rfl, rfl⟩
  · obtain ⟨found, s₁, -, h⟩ := Txn.bind_eq_ok.mp h
    split at h
    · simp at h
    · simp at h
  · simp at h

theorem issueToken_ok {p : PrincipalId} {lifetime : TokenLifetime} {w : World} {db : Database}
    {s' : Session} {token : Str}
    (h : issueToken hashToken p lifetime w (.start db) = (.ok token, s')) :
    ∃ o, db.organizationsOf p = [o] ∧
      TokenInserted hashToken db s'.stored token ⟨p, o, w.clock 0, lifetime.expiresAt⟩ := by
  unfold issueToken at h
  obtain ⟨_, s₁, hbegin, h⟩ := Txn.bind_eq_ok.mp h
  obtain ⟨organizations, s₂, hquery, h⟩ := Txn.bind_eq_ok.mp h
  obtain ⟨o, s₃, honly, h⟩ := Txn.bind_eq_ok.mp h
  obtain ⟨token', s₄, hissue, h⟩ := Txn.bind_eq_ok.mp h
  obtain ⟨_, s₅, hcommit, h⟩ := Txn.bind_eq_ok.mp h
  obtain ⟨rfl, rfl⟩ := Txn.pure_eq_ok.mp h
  obtain ⟨-, rfl⟩ := beginWrite_eq_ok.mp hbegin
  obtain ⟨-, rfl, rfl⟩ := query_eq_ok.mp hquery
  obtain ⟨hone, rfl⟩ := onlyOrganization_ok honly
  obtain ⟨-, rfl⟩ := commit_eq_ok.mp hcommit
  exact ⟨o, hone, issueTokenInTransaction_ok hissue⟩

/-- A token's credential is its row: the membership the join asks for is there. -/
theorem credential_eq (hashToken : Str → Str) (db : Database) (token : Str) :
    db.credential hashToken token = (db.tokens.find (hashToken token)).map fun row =>
      ⟨row.principalId, row.organizationId, row.createdAtUnix, row.expiresAtUnix⟩ := by
  unfold Database.credential
  cases hrow : db.tokens.find (hashToken token) with
  | none => rfl
  | some row =>
    obtain ⟨hmem, -⟩ := Table.find_eq_some.mp hrow
    obtain ⟨membership, hmembership⟩ :=
      Option.ne_none_iff_exists'.mp (db.token_membership row hmem)
    show (db.memberships.find row.membership).bind _ = _
    rw [hmembership]
    rfl

theorem credential_eq_some {db : Database} {token : Str} {c : Credential} :
    db.credential hashToken token = some c ↔
      db.tokens.find (hashToken token) = some (c.row (hashToken token)) := by
  rw [credential_eq]
  cases hrow : db.tokens.find (hashToken token) with
  | none => simp
  | some row =>
    obtain ⟨-, hkey⟩ := Table.find_eq_some.mp hrow
    obtain ⟨tokenHash, p, o, created, expires⟩ := row
    obtain ⟨p', o', created', expires'⟩ := c
    obtain rfl : tokenHash = hashToken token := hkey
    simp [Credential.row]

theorem lookupCredential_eq_ok {token : Str} {w : World} {s s' : Session} {c : Credential} :
    lookupCredential hashToken token w s = (.ok c, s') ↔
      w.failure s.statements = none ∧
        s.db.tokens.find (hashToken token) = some (c.row (hashToken token)) ∧
        s' = s.after s.db := by
  unfold lookupCredential
  rw [Txn.bind_eq_ok, ← credential_eq_some]
  simp only [query_eq_ok, Txn.okOr_eq_ok]
  constructor
  · rintro ⟨found, s₁, ⟨hfailure, hfound, rfl⟩, rfl, rfl⟩
    exact ⟨hfailure, hfound, rfl⟩
  · rintro ⟨hfailure, hfound, rfl⟩
    exact ⟨some c, s.after s.db, ⟨hfailure, hfound, rfl⟩, rfl, rfl⟩

@[simp] theorem stillValid_eq_ok {c c' : Credential} {now : Int} {w : World} {s s' : Session} :
    c.stillValid now w s = (.ok c', s') ↔
      expired c.expiresAtUnix now = false ∧ c = c' ∧ s = s' := by
  unfold Credential.stillValid
  cases hexpired : expired c.expiresAtUnix now with
  | true => simp
  | false => simp

/-- The credential a rotation mints from `c`: its clock readings are the check of
the old expiry, the new lifetime's start when it has one to compute, and the
`created_at_unix` of the new row. -/
def Credential.rotated (c : Credential) (lifetime : RotationLifetime) (w : World) : Credential :=
  match lifetime, c.expiresAtUnix with
  | .Replaced lifetime, _ => ⟨c.principalId, c.organizationId, w.clock 1, lifetime.expiresAt⟩
  | .Preserved, none => ⟨c.principalId, c.organizationId, w.clock 1, none⟩
  | .Preserved, some expiresAt =>
    ⟨c.principalId, c.organizationId, w.clock 2,
      some (saturate (w.clock 1 + saturate (expiresAt - c.createdAtUnix)))⟩

theorem resolve_ok {lifetime : RotationLifetime} {c : Credential} {w : World} {s s' : Session}
    {resolved : TokenLifetime} (hreadings : s.readings = 1)
    (h : lifetime.resolve c w s = (.ok resolved, s')) :
    s'.db = s.db ∧ c.rotated lifetime w =
      ⟨c.principalId, c.organizationId, w.clock s'.readings, resolved.expiresAt⟩ := by
  unfold RotationLifetime.resolve Credential.issuedLifetime at h
  unfold Credential.rotated
  cases lifetime with
  | Replaced lifetime =>
    obtain ⟨rfl, rfl⟩ := Txn.pure_eq_ok.mp h
    exact ⟨rfl, by rw [hreadings]⟩
  | Preserved =>
    cases hexpires : c.expiresAtUnix with
    | none =>
      simp only [hexpires] at h
      obtain ⟨rfl, rfl⟩ := Txn.pure_eq_ok.mp h
      exact ⟨rfl, by rw [hreadings]; rfl⟩
    | some expiresAt =>
      simp only [hexpires] at h
      obtain ⟨now, s₁, hnow, h⟩ := Txn.bind_eq_ok.mp h
      obtain ⟨rfl, rfl⟩ := unixNow_eq_ok.mp hnow
      obtain ⟨rfl, rfl⟩ := Txn.pure_eq_ok.mp h
      refine ⟨rfl, ?_⟩
      rw [Session.clockRead_readings, hreadings]
      rfl

/-- A rotation retires the row it was asked for and puts in one other row. -/
theorem rotateToken_ok {token : Str} {lifetime : RotationLifetime} {w : World} {db : Database}
    {s' : Session} {replacement : Str}
    (h : rotateToken hashToken token lifetime w (.start db) = (.ok replacement, s')) :
    ∃ c : Credential, ∃ db₁ : Database,
      db.tokens.find (hashToken token) = some (c.row (hashToken token)) ∧
      expired c.expiresAtUnix (w.clock 0) = false ∧
      TokenInserted hashToken db db₁ replacement (c.rotated lifetime w) ∧
      s'.stored = (db₁.deleteToken (hashToken token)).2 := by
  unfold rotateToken at h
  obtain ⟨_, s₁, hbegin, h⟩ := Txn.bind_eq_ok.mp h
  obtain ⟨found, s₂, hlookup, h⟩ := Txn.bind_eq_ok.mp h
  obtain ⟨now, s₃, hnow, h⟩ := Txn.bind_eq_ok.mp h
  obtain ⟨c, s₄, hvalid, h⟩ := Txn.bind_eq_ok.mp h
  obtain ⟨resolved, s₅, hresolve, h⟩ := Txn.bind_eq_ok.mp h
  obtain ⟨replacement', s₆, hissue, h⟩ := Txn.bind_eq_ok.mp h
  obtain ⟨retired, s₇, hdelete, h⟩ := Txn.bind_eq_ok.mp h
  obtain ⟨-, rfl⟩ := beginWrite_eq_ok.mp hbegin
  obtain ⟨-, hrow, rfl⟩ := lookupCredential_eq_ok.mp hlookup
  obtain ⟨rfl, rfl⟩ := unixNow_eq_ok.mp hnow
  obtain ⟨hlive, rfl, rfl⟩ := stillValid_eq_ok.mp hvalid
  obtain ⟨hdb, hrotated⟩ := resolve_ok rfl hresolve
  have hminted := issueTokenInTransaction_ok hissue
  rw [hdb, ← hrotated] at hminted
  obtain ⟨-, rfl⟩ := delete_ok hdelete
  split at h
  · simp at h
  · obtain ⟨_, s₈, hcommit, h⟩ := Txn.bind_eq_ok.mp h
    obtain ⟨-, rfl⟩ := commit_eq_ok.mp hcommit
    obtain ⟨rfl, rfl⟩ := Txn.pure_eq_ok.mp h
    exact ⟨found, s₆.db, hrow, hlive, hminted, rfl⟩

theorem revokeToken_ok {token : Str} {w : World} {db : Database} {s' : Session}
    (h : revokeToken hashToken token w (.start db) = (.ok (), s')) :
    s'.stored = (db.deleteToken (hashToken token)).2 := by
  unfold revokeToken at h
  obtain ⟨n, s₁, hdelete, h⟩ := Txn.bind_eq_ok.mp h
  obtain ⟨-, rfl⟩ := delete_ok hdelete
  obtain ⟨-, rfl⟩ := Txn.pure_eq_ok.mp h
  rfl

/-- A token resolves exactly when its row is there and has not expired. -/
theorem resolveContext_eq_ok {token : Str} {w : World} {db : Database} {s' : Session}
    {context : AuthenticatedContext} :
    resolveContext hashToken token w (.start db) = (.ok context, s') ↔
      s' = ((Session.start db).after db).clockRead ∧ w.failure 0 = none ∧
        ∃ c : Credential, db.tokens.find (hashToken token) = some (c.row (hashToken token)) ∧
          expired c.expiresAtUnix (w.clock 0) = false ∧
          context = ⟨c.principalId, c.organizationId⟩ := by
  unfold resolveContext
  simp only [Txn.bind_eq_ok, lookupCredential_eq_ok, unixNow_eq_ok, stillValid_eq_ok,
    Txn.pure_eq_ok]
  constructor
  · rintro ⟨c, s₁, ⟨hfailure, hrow, rfl⟩, now, s₂, ⟨rfl, rfl⟩, c', s₃, ⟨hlive, rfl, rfl⟩, rfl, rfl⟩
    exact ⟨rfl, hfailure, c, hrow, hlive, rfl⟩
  · rintro ⟨rfl, hfailure, c, hrow, hlive, rfl⟩
    exact ⟨c, _, ⟨hfailure, hrow, rfl⟩, _, _, ⟨rfl, rfl⟩, c, _, ⟨hlive, rfl, rfl⟩, rfl, rfl⟩

/-- What a call that returns does to the memberships and the tokens. -/
inductive Effect (hashToken : Str → Str) (db db' : Database) (w : World) :
    Operation → Answer → Prop
  | createUser {name : Str} {p : PrincipalId} {o : OrganizationId}
      (hdraw : organizationOfDraw w 1 = some o) (hjoined : Joined db db' p o) :
      Effect hashToken db db' w (.createUser name) (.principal p)
  | createOrganization {name : Str} {o : OrganizationId} (hkept : Kept db db') :
      Effect hashToken db db' w (.createOrganization name) (.organization o)
  | createUserInOrganization {name : Str} {p : PrincipalId} {o : OrganizationId}
      (hjoined : Joined db db' p o) :
      Effect hashToken db db' w (.createUserInOrganization name o) (.principal p)
  | addPrincipalToOrganization {p : PrincipalId} {o : OrganizationId}
      (hjoined : Joined db db' p o) :
      Effect hashToken db db' w (.addPrincipalToOrganization p o) .done
  | removePrincipalFromOrganization {p : PrincipalId} {o : OrganizationId}
      (hdb : db' = (db.deleteMembership p o).2) :
      Effect hashToken db db' w (.removePrincipalFromOrganization p o) .done
  | issueToken {p : PrincipalId} {o : OrganizationId} {lifetime : TokenLifetime} {token : Str}
      (honly : db.organizationsOf p = [o])
      (hinserted : TokenInserted hashToken db db' token ⟨p, o, w.clock 0, lifetime.expiresAt⟩) :
      Effect hashToken db db' w (.issueToken p lifetime) (.token token)
  | issueTokenForOrganization {p : PrincipalId} {o : OrganizationId} {lifetime : TokenLifetime}
      {token : Str}
      (hinserted : TokenInserted hashToken db db' token ⟨p, o, w.clock 0, lifetime.expiresAt⟩) :
      Effect hashToken db db' w (.issueTokenForOrganization p o lifetime) (.token token)
  | rotateToken {token replacement : Str} {lifetime : RotationLifetime} {c : Credential}
      {db₁ : Database} (hrow : db.tokens.find (hashToken token) = some (c.row (hashToken token)))
      (hlive : expired c.expiresAtUnix (w.clock 0) = false)
      (hinserted : TokenInserted hashToken db db₁ replacement (c.rotated lifetime w))
      (hdb : db' = (db₁.deleteToken (hashToken token)).2) :
      Effect hashToken db db' w (.rotateToken token lifetime) (.token replacement)
  | revokeToken {token : Str} (hdb : db' = (db.deleteToken (hashToken token)).2) :
      Effect hashToken db db' w (.revokeToken token) .done
  | resolveContext {token : Str} {context : AuthenticatedContext} (hdb : db' = db) :
      Effect hashToken db db' w (.resolveContext token) (.context context)

theorem run_ok {call : Call} {db db' : Database} {a : Answer}
    (h : call.run hashToken db = (.ok a, db')) :
    ∃ s, call.operation.code hashToken call.world (.start db) = (.ok a, s) ∧ s.stored = db' := by
  unfold Call.run at h
  obtain ⟨hresult, hdb⟩ := Prod.mk.inj h
  exact ⟨_, Prod.ext hresult rfl, hdb⟩

theorem effect_of_run {call : Call} {db db' : Database} {a : Answer}
    (h : call.run hashToken db = (.ok a, db')) :
    Effect hashToken db db' call.world call.operation a := by
  obtain ⟨s, hcode, rfl⟩ := run_ok h
  obtain ⟨operation, w⟩ := call
  cases operation with
  | createUser name =>
    obtain ⟨p, s₁, h₁, hret⟩ := Txn.bind_eq_ok.mp hcode
    obtain ⟨rfl, rfl⟩ := Txn.pure_eq_ok.mp hret
    obtain ⟨o, hdraw, hjoined⟩ := createUser_ok h₁
    exact .createUser hdraw hjoined
  | createOrganization name =>
    obtain ⟨o, s₁, h₁, hret⟩ := Txn.bind_eq_ok.mp hcode
    obtain ⟨rfl, rfl⟩ := Txn.pure_eq_ok.mp hret
    exact .createOrganization (createOrganization_ok h₁)
  | createUserInOrganization name o =>
    obtain ⟨p, s₁, h₁, hret⟩ := Txn.bind_eq_ok.mp hcode
    obtain ⟨rfl, rfl⟩ := Txn.pure_eq_ok.mp hret
    exact .createUserInOrganization (createUserInOrganization_ok h₁)
  | addPrincipalToOrganization p o =>
    obtain ⟨_, s₁, h₁, hret⟩ := Txn.bind_eq_ok.mp hcode
    obtain ⟨rfl, rfl⟩ := Txn.pure_eq_ok.mp hret
    exact .addPrincipalToOrganization (addPrincipalToOrganization_ok h₁)
  | removePrincipalFromOrganization p o =>
    obtain ⟨_, s₁, h₁, hret⟩ := Txn.bind_eq_ok.mp hcode
    obtain ⟨rfl, rfl⟩ := Txn.pure_eq_ok.mp hret
    exact .removePrincipalFromOrganization (removePrincipalFromOrganization_ok h₁)
  | issueToken p lifetime =>
    obtain ⟨token, s₁, h₁, hret⟩ := Txn.bind_eq_ok.mp hcode
    obtain ⟨rfl, rfl⟩ := Txn.pure_eq_ok.mp hret
    obtain ⟨o, honly, hinserted⟩ := issueToken_ok h₁
    exact .issueToken honly hinserted
  | issueTokenForOrganization p o lifetime =>
    obtain ⟨token, s₁, h₁, hret⟩ := Txn.bind_eq_ok.mp hcode
    obtain ⟨rfl, rfl⟩ := Txn.pure_eq_ok.mp hret
    exact .issueTokenForOrganization (issueTokenForOrganization_ok h₁)
  | rotateToken token lifetime =>
    obtain ⟨replacement, s₁, h₁, hret⟩ := Txn.bind_eq_ok.mp hcode
    obtain ⟨rfl, rfl⟩ := Txn.pure_eq_ok.mp hret
    obtain ⟨c, db₁, hrow, hlive, hinserted, hdb⟩ := rotateToken_ok h₁
    exact .rotateToken hrow hlive hinserted hdb
  | revokeToken token =>
    obtain ⟨_, s₁, h₁, hret⟩ := Txn.bind_eq_ok.mp hcode
    obtain ⟨rfl, rfl⟩ := Txn.pure_eq_ok.mp hret
    exact .revokeToken (revokeToken_ok h₁)
  | resolveContext token =>
    obtain ⟨context, s₁, h₁, hret⟩ := Txn.bind_eq_ok.mp hcode
    obtain ⟨rfl, rfl⟩ := Txn.pure_eq_ok.mp hret
    obtain ⟨rfl, -⟩ := resolveContext_eq_ok.mp h₁
    exact .resolveContext rfl

-- ---------------------------------------------------------------------------
-- Histories
-- ---------------------------------------------------------------------------

/-- A call that was made, with what it returned. -/
abbrev Step := Entry Database Call (Outcome IdentityError Answer)

/-- The call made `p` a member of `o`. -/
@[mk_iff] inductive Joins (e : Step) (p : PrincipalId) (o : OrganizationId) : Prop
  | createUser (name : Str) (hcall : e.action.operation = .createUser name)
      (hresult : e.result = .ok (.principal p))
      (hdraw : organizationOfDraw e.action.world 1 = some o)
  | createUserInOrganization (name : Str)
      (hcall : e.action.operation = .createUserInOrganization name o)
      (hresult : e.result = .ok (.principal p))
  | addPrincipalToOrganization (hcall : e.action.operation = .addPrincipalToOrganization p o)
      (hresult : e.result = .ok .done)

/-- The call removed the membership of `p` in `o`. -/
def Removes (e : Step) (p : PrincipalId) (o : OrganizationId) : Prop :=
  e.action.operation = .removePrincipalFromOrganization p o ∧ e.result = .ok .done

/-- The call rotated the token away or revoked it. -/
@[mk_iff] inductive Retires (e : Step) (token : Str) : Prop
  | rotated (lifetime : RotationLifetime) (replacement : Str)
      (hcall : e.action.operation = .rotateToken token lifetime)
      (hresult : e.result = .ok (.token replacement))
  | revoked (hcall : e.action.operation = .revokeToken token) (hresult : e.result = .ok .done)

/-- The call ended the token: it retired it, or removed the membership it is for. -/
def Ends (e : Step) (token : Str) (c : Credential) : Prop :=
  Retires e token ∨ Removes e c.principalId c.organizationId

/-- `p` joined `o` and has not been removed since. -/
def Member (h : List Step) (p : PrincipalId) (o : OrganizationId) : Prop :=
  ∃ h₁ e h₂, h = h₁ ++ e :: h₂ ∧ Joins e p o ∧ ∀ e' ∈ h₂, ¬Removes e' p o

/-- The last call of the history minted the token, as this credential: for the
principal and organization it was issued for, or those of the token it replaces. -/
inductive Minted : List Step → Str → Credential → Prop
  | issueToken {h : List Step} {e : Step} {p : PrincipalId} {o : OrganizationId}
      {lifetime : TokenLifetime} {token : Str}
      (hcall : e.action.operation = .issueToken p lifetime)
      (hresult : e.result = .ok (.token token)) (honly : ∀ o', Member h p o' ↔ o' = o) :
      Minted (h ++ [e]) token ⟨p, o, e.action.world.clock 0, lifetime.expiresAt⟩
  | issueTokenForOrganization {h : List Step} {e : Step} {p : PrincipalId} {o : OrganizationId}
      {lifetime : TokenLifetime} {token : Str}
      (hcall : e.action.operation = .issueTokenForOrganization p o lifetime)
      (hresult : e.result = .ok (.token token)) :
      Minted (h ++ [e]) token ⟨p, o, e.action.world.clock 0, lifetime.expiresAt⟩
  | rotateToken {h₁ h₂ : List Step} {e : Step} {old token : Str} {c : Credential}
      {lifetime : RotationLifetime} (hold : Minted h₁ old c) (hkept : ∀ e' ∈ h₂, ¬Ends e' old c)
      (hcall : e.action.operation = .rotateToken old lifetime)
      (hresult : e.result = .ok (.token token)) :
      Minted (h₁ ++ h₂ ++ [e]) token (c.rotated lifetime e.action.world)

/-- The token was minted as this credential and has not been ended since. -/
def Standing (h : List Step) (token : Str) (c : Credential) : Prop :=
  ∃ h₁ h₂, h = h₁ ++ h₂ ∧ Minted h₁ token c ∧ ∀ e ∈ h₂, ¬Ends e token c

theorem not_minted_nil {token : Str} {c : Credential} : ¬Minted [] token c := by
  intro h
  generalize hnil : ([] : List Step) = h₀ at h
  cases h with
  | issueToken => simp at hnil
  | issueTokenForOrganization => simp at hnil
  | rotateToken => simp at hnil

theorem not_standing_nil {token : Str} {c : Credential} : ¬Standing [] token c := by
  rintro ⟨h₁, h₂, hcut, hminted, -⟩
  obtain ⟨rfl, rfl⟩ := List.append_eq_nil_iff.mp hcut.symm
  exact not_minted_nil hminted

theorem not_member_nil {p : PrincipalId} {o : OrganizationId} : ¬Member [] p o := by
  rintro ⟨h₁, e, h₂, hcut, -⟩
  simp at hcut

/-- One more call: it joins the membership, or the membership was there and the
call does not remove it. -/
theorem member_snoc {h : List Step} {e : Step} {p : PrincipalId} {o : OrganizationId} :
    Member (h ++ [e]) p o ↔ Joins e p o ∨ (Member h p o ∧ ¬Removes e p o) := by
  constructor
  · rintro ⟨h₁, e', h₂, hcut, hjoins, hkept⟩
    rcases List.eq_nil_or_concat h₂ with rfl | ⟨h₂, last, rfl⟩
    · obtain ⟨rfl, hlast⟩ := List.append_inj' hcut rfl
      obtain rfl := (List.cons.inj hlast).1
      exact Or.inl hjoins
    · rw [List.concat_eq_append] at hcut hkept
      rw [← List.cons_append, ← List.append_assoc] at hcut
      obtain ⟨rfl, hlast⟩ := List.append_inj' hcut rfl
      obtain rfl := (List.cons.inj hlast).1
      refine Or.inr ⟨⟨h₁, e', h₂, rfl, hjoins, fun e'' he'' => ?_⟩, ?_⟩
      · exact hkept e'' (List.mem_append_left _ he'')
      · exact hkept e (List.mem_append_right _ (List.mem_singleton.mpr rfl))
  · rintro (hjoins | ⟨⟨h₁, e', h₂, rfl, hjoins, hkept⟩, hlast⟩)
    · exact ⟨h, e, [], rfl, hjoins, by simp⟩
    · refine ⟨h₁, e', h₂ ++ [e], by simp, hjoins, fun e'' he'' => ?_⟩
      rcases List.mem_append.mp he'' with hmem | hmem
      · exact hkept e'' hmem
      · rw [List.mem_singleton.mp hmem]
        exact hlast

theorem standing_snoc {h : List Step} {e : Step} {token : Str} {c : Credential} :
    Standing (h ++ [e]) token c ↔
      Minted (h ++ [e]) token c ∨ (Standing h token c ∧ ¬Ends e token c) := by
  constructor
  · rintro ⟨h₁, h₂, hcut, hminted, hkept⟩
    rcases List.eq_nil_or_concat h₂ with rfl | ⟨h₂, last, rfl⟩
    · rw [List.append_nil] at hcut
      rw [hcut]
      exact Or.inl hminted
    · rw [List.concat_eq_append] at hcut hkept
      rw [← List.append_assoc] at hcut
      obtain ⟨rfl, hlast⟩ := List.append_inj' hcut rfl
      obtain rfl := (List.cons.inj hlast).1
      refine Or.inr ⟨⟨h₁, h₂, rfl, hminted, fun e' he' => ?_⟩, ?_⟩
      · exact hkept e' (List.mem_append_left _ he')
      · exact hkept e (List.mem_append_right _ (List.mem_singleton.mpr rfl))
  · rintro (hminted | ⟨⟨h₁, h₂, rfl, hminted, hkept⟩, hlast⟩)
    · exact ⟨h ++ [e], [], by simp, hminted, by simp⟩
    · refine ⟨h₁, h₂ ++ [e], by simp, hminted, fun e' he' => ?_⟩
      rcases List.mem_append.mp he' with hmem | hmem
      · exact hkept e' hmem
      · rw [List.mem_singleton.mp hmem]
        exact hlast

/-- What the last call minted, by the call. -/
theorem minted_snoc {h : List Step} {e : Step} {token : Str} {c : Credential} :
    Minted (h ++ [e]) token c ↔
      (∃ p o lifetime, e.action.operation = .issueToken p lifetime ∧
        e.result = .ok (.token token) ∧ (∀ o', Member h p o' ↔ o' = o) ∧
        c = ⟨p, o, e.action.world.clock 0, lifetime.expiresAt⟩) ∨
      (∃ p o lifetime, e.action.operation = .issueTokenForOrganization p o lifetime ∧
        e.result = .ok (.token token) ∧
        c = ⟨p, o, e.action.world.clock 0, lifetime.expiresAt⟩) ∨
      (∃ old lifetime c', e.action.operation = .rotateToken old lifetime ∧
        e.result = .ok (.token token) ∧ Standing h old c' ∧
        c = c'.rotated lifetime e.action.world) := by
  constructor
  · intro hminted
    generalize hcut : h ++ [e] = whole at hminted
    cases hminted with
    | issueToken hcall hresult honly =>
      obtain ⟨rfl, hlast⟩ := List.append_inj' hcut rfl
      obtain rfl := (List.cons.inj hlast).1
      exact Or.inl ⟨_, _, _, hcall, hresult, honly, rfl⟩
    | issueTokenForOrganization hcall hresult =>
      obtain ⟨rfl, hlast⟩ := List.append_inj' hcut rfl
      obtain rfl := (List.cons.inj hlast).1
      exact Or.inr (Or.inl ⟨_, _, _, hcall, hresult, rfl⟩)
    | rotateToken hold hkept hcall hresult =>
      obtain ⟨rfl, hlast⟩ := List.append_inj' hcut rfl
      obtain rfl := (List.cons.inj hlast).1
      exact Or.inr (Or.inr ⟨_, _, _, hcall, hresult, ⟨_, _, rfl, hold, hkept⟩, rfl⟩)
  · rintro (⟨p, o, lifetime, hcall, hresult, honly, rfl⟩ | ⟨p, o, lifetime, hcall, hresult, rfl⟩ |
      ⟨old, lifetime, c', hcall, hresult, ⟨h₁, h₂, rfl, hold, hkept⟩, rfl⟩)
    · exact .issueToken hcall hresult honly
    · exact .issueTokenForOrganization hcall hresult
    · exact .rotateToken hold hkept hcall hresult

-- ---------------------------------------------------------------------------
-- The tables and the history agree
-- ---------------------------------------------------------------------------

theorem step_member {call : Call} {db db' : Database} {result : Outcome IdentityError Answer}
    (hstep : call.run hashToken db = (result, db')) (p : PrincipalId) (o : OrganizationId) :
    db'.isMember p o = true ↔ Joins ⟨db, call, result, db'⟩ p o ∨
      (db.isMember p o = true ∧ ¬Removes ⟨db, call, result, db'⟩ p o) := by
  by_cases hreturned : ∃ a, result = .ok a
  · obtain ⟨a, rfl⟩ := hreturned
    have heffect := effect_of_run hstep
    obtain ⟨operation, w⟩ := call
    simp only [joins_iff, Removes]
    simp only at heffect
    cases heffect with
    | createUser hdraw hjoined =>
      rw [hjoined.2 p o]
      grind
    | createOrganization hkept =>
      simp [hkept.isMember]
    | createUserInOrganization hjoined =>
      rw [hjoined.2 p o]
      grind
    | addPrincipalToOrganization hjoined =>
      rw [hjoined.2 p o]
      grind
    | removePrincipalFromOrganization hdb =>
      rw [hdb, isMember_deleteMembership]
      grind
    | issueToken honly hinserted =>
      have hsame := hinserted.1
      simp [Database.isMember, hsame]
    | issueTokenForOrganization hinserted =>
      have hsame := hinserted.1
      simp [Database.isMember, hsame]
    | rotateToken hrow hlive hinserted hdb =>
      have hsame := hinserted.1
      simp [Database.isMember, hdb, Database.deleteToken, hsame]
    | revokeToken hdb =>
      simp [Database.isMember, hdb, Database.deleteToken]
    | resolveContext hdb =>
      simp [hdb]
  · have hnot : ∀ a, result ≠ .ok a := fun a ha => hreturned ⟨a, ha⟩
    rw [run_kept hstep hnot]
    simp [joins_iff, Removes, hnot]

/-- The memberships are those the history says, and the row of a token is the
credential it stands for. -/
structure Agrees (hashToken : Str → Str) (h : List Step) (db : Database) : Prop where
  members : ∀ p o, db.isMember p o = true ↔ Member h p o
  rows : ∀ token c, db.tokens.find (hashToken token) = some (c.row (hashToken token)) ↔
    Standing h token c

@[simp] theorem row_inj {c c' : Credential} {tokenHash : Str} :
    c.row tokenHash = c'.row tokenHash ↔ c = c' := by
  obtain ⟨p, o, created, expires⟩ := c
  obtain ⟨p', o', created', expires'⟩ := c'
  simp [Credential.row]

/-- A freshly inserted token is the only one that changed: no row had its hash. -/
theorem TokenInserted.rows {db db' : Database} {token : Str} {c : Credential}
    (h : TokenInserted hashToken db db' token c) (hinjective : Function.Injective hashToken)
    (token' : Str) (c' : Credential) :
    db'.tokens.find (hashToken token') = some (c'.row (hashToken token')) ↔
      (token = token' ∧ c' = c) ∨
        db.tokens.find (hashToken token') = some (c'.row (hashToken token')) := by
  obtain ⟨-, hfree, hfind⟩ := h
  rw [hfind]
  by_cases htoken : token = token'
  · subst htoken
    rw [if_pos rfl, hfree]
    constructor
    · intro hrow
      exact Or.inl ⟨rfl, (row_inj.mp (Option.some.inj hrow)).symm⟩
    · rintro (⟨-, rfl⟩ | hrow)
      · rfl
      · cases hrow
  · have hhash : ¬hashToken token = hashToken token' := fun hsame =>
      htoken (hinjective hsame)
    rw [if_neg hhash]
    simp [htoken]

theorem rows_deleteToken {db : Database} {token token' : Str} {c : Credential}
    (hinjective : Function.Injective hashToken) :
    (db.deleteToken (hashToken token)).2.tokens.find (hashToken token') =
        some (c.row (hashToken token')) ↔
      token ≠ token' ∧
        db.tokens.find (hashToken token') = some (c.row (hashToken token')) := by
  rw [find_deleteToken]
  by_cases htoken : token = token'
  · simp [htoken]
  · simp [htoken, hinjective.eq_iff, Ne.symm htoken]

theorem step_rows {h : List Step} {call : Call} {db db' : Database}
    {result : Outcome IdentityError Answer} (hinjective : Function.Injective hashToken)
    (agrees : Agrees hashToken h db) (hstep : call.run hashToken db = (result, db')) (token : Str)
    (c : Credential) :
    db'.tokens.find (hashToken token) = some (c.row (hashToken token)) ↔
      Standing (h ++ [⟨db, call, result, db'⟩]) token c := by
  rw [standing_snoc, minted_snoc, ← agrees.rows]
  by_cases hreturned : ∃ a, result = .ok a
  · obtain ⟨a, rfl⟩ := hreturned
    have heffect := effect_of_run hstep
    obtain ⟨operation, w⟩ := call
    simp only [Ends, retires_iff, Removes]
    simp only at heffect
    cases heffect with
    | createUser hdraw hjoined => simp [hjoined.1]
    | createOrganization hkept => simp [hkept.2]
    | createUserInOrganization hjoined => simp [hjoined.1]
    | addPrincipalToOrganization hjoined => simp [hjoined.1]
    | removePrincipalFromOrganization hdb =>
      rw [hdb, find_deleteMembership]
      simp [Credential.row, eq_comm]
    | @issueToken p o lifetime token' honly hinserted =>
      -- the only organization of the principal, by the rows and by the history
      have hmembers : ∀ o', Member h p o' ↔ o' = o := by
        intro o'
        rw [← agrees.members, ← mem_organizationsOf, honly, List.mem_singleton]
      have hone : ∀ o'', (∀ o', Member h p o' ↔ o' = o'') ↔ o'' = o := by
        intro o''
        constructor
        · intro hall
          exact (hmembers o'').mp ((hall o'').mpr rfl)
        · rintro rfl
          exact hmembers
      rw [hinserted.rows hinjective]
      simp [hone]
    | issueTokenForOrganization hinserted =>
      rw [hinserted.rows hinjective]
      simp
    | @rotateToken old replacement lifetime c' db₁ hrow hlive hinserted hdb =>
      -- the replacement was drawn where no row was, so it is not the token it replaces
      rw [hdb, rows_deleteToken hinjective, hinserted.rows hinjective]
      have hother : replacement ≠ old := by
        rintro rfl
        rw [hinserted.2.1] at hrow
        cases hrow
      simp [← agrees.rows, hrow]
      grind
    | revokeToken hdb =>
      rw [hdb, rows_deleteToken hinjective]
      simp [eq_comm, and_comm]
    | resolveContext hdb => simp [hdb]
  · have hnot : ∀ a, result ≠ .ok a := fun a ha => hreturned ⟨a, ha⟩
    rw [run_kept hstep hnot]
    simp [Ends, retires_iff, Removes, hnot]

theorem agrees_empty : Agrees hashToken [] .empty where
  members p o := by
    rw [isMember_iff]
    simp [Database.empty, not_member_nil]
  rows token c := by
    simp [Database.empty, not_standing_nil]

/-- After any run the tables are what the history says. -/
theorem run_agrees (hinjective : Function.Injective hashToken) {h : List Step} {db : Database}
    (run : (store hashToken).Run h db) : Agrees hashToken h db := by
  refine run.history_induction ?_ ?_
  · rintro db rfl
    exact agrees_empty
  · intro h db call result db' _ agrees hstep
    refine ⟨fun p o => ?_, fun token c => step_rows hinjective agrees hstep token c⟩
    rw [member_snoc, step_member hstep, agrees.members]

-- ---------------------------------------------------------------------------
-- What callers rely on
-- ---------------------------------------------------------------------------

/-- What `resolve_context` returns on this database. -/
def resolve (hashToken : Str → Str) (db : Database) (token : Str) (w : World) :
    Outcome IdentityError AuthenticatedContext :=
  (resolveContext hashToken token w (.start db)).1

theorem resolve_eq_ok {db : Database} {token : Str} {w : World} {context : AuthenticatedContext} :
    resolve hashToken db token w = .ok context ↔
      w.failure 0 = none ∧
        ∃ c : Credential, db.tokens.find (hashToken token) = some (c.row (hashToken token)) ∧
          expired c.expiresAtUnix (w.clock 0) = false ∧
          context = ⟨c.principalId, c.organizationId⟩ := by
  constructor
  · intro h
    exact (resolveContext_eq_ok.mp (Prod.ext h rfl)).2
  · intro h
    exact congrArg Prod.fst (resolveContext_eq_ok.mpr ⟨rfl, h⟩)

theorem Credential.rotated_scope (c : Credential) (lifetime : RotationLifetime) (w : World) :
    (c.rotated lifetime w).principalId = c.principalId ∧
      (c.rotated lifetime w).organizationId = c.organizationId := by
  unfold Credential.rotated
  split
  · exact ⟨rfl, rfl⟩
  · exact ⟨rfl, rfl⟩
  · exact ⟨rfl, rfl⟩

/-- What resolves once a rotation is through: not the old token, and the new one in
the old one's place. -/
theorem resolve_rotated (hinjective : Function.Injective hashToken) {call : Call}
    {db db' : Database} {token replacement : Str} {lifetime : RotationLifetime}
    (hcall : call.operation = .rotateToken token lifetime)
    (hstep : call.run hashToken db = (.ok (.token replacement), db')) :
    ∃ c : Credential, db.tokens.find (hashToken token) = some (c.row (hashToken token)) ∧
      expired c.expiresAtUnix (call.world.clock 0) = false ∧
      ∀ w context, resolve hashToken db' token w ≠ .ok context ∧
        (resolve hashToken db' replacement w = .ok context ↔
          w.failure 0 = none ∧ context = ⟨c.principalId, c.organizationId⟩ ∧
            expired (c.rotated lifetime call.world).expiresAtUnix (w.clock 0) = false) := by
  have heffect := effect_of_run hstep
  rw [hcall] at heffect
  cases heffect with
  | @rotateToken _ _ _ c db₁ hrow hlive hinserted hdb =>
    have hother : replacement ≠ token := by
      rintro rfl
      rw [hinserted.2.1] at hrow
      cases hrow
    refine ⟨c, hrow, hlive, fun w context => ⟨?_, ?_⟩⟩
    · rw [Ne, resolve_eq_ok, hdb]
      rintro ⟨-, c', hrow', -⟩
      exact ((rows_deleteToken hinjective).mp hrow').1 rfl
    · rw [resolve_eq_ok, hdb]
      have hnew : ∀ c', (db₁.deleteToken (hashToken token)).2.tokens.find (hashToken replacement) =
          some (c'.row (hashToken replacement)) ↔ c' = c.rotated lifetime call.world := by
        intro c'
        rw [rows_deleteToken hinjective, hinserted.rows hinjective]
        simp [hother.symm, hinserted.2.1]
      obtain ⟨hp, ho⟩ := c.rotated_scope lifetime call.world
      simp only [hnew]
      constructor
      · rintro ⟨hfailure, c', rfl, hlive', rfl⟩
        exact ⟨hfailure, by rw [hp, ho], hlive'⟩
      · rintro ⟨hfailure, rfl, hlive'⟩
        exact ⟨hfailure, _, rfl, hlive', by rw [hp, ho]⟩

/-- The call rotated this token away. -/
def rotates (token : Str) (e : Step) : Bool :=
  match e.action.operation, e.result with
  | .rotateToken old _, .ok (.token _) => decide (old = token)
  | _, _ => false

theorem rotates_iff {token : Str} {e : Step} :
    rotates token e = true ↔ ∃ lifetime replacement,
      e.action.operation = .rotateToken token lifetime ∧ e.result = .ok (.token replacement) := by
  unfold rotates
  split
  · rename_i old lifetime replacement hcall hresult
    simp [hcall, hresult]
  · rename_i hother
    simp only [Bool.false_eq_true, false_iff]
    rintro ⟨lifetime, replacement, hcall, hresult⟩
    exact hother _ _ _ hcall hresult

/-- The token a call returned. -/
def mintedToken (e : Step) : Option Str :=
  match e.result with
  | .ok (.token token) => some token
  | _ => none

/-- Every token that was returned was new: 256 random bits do not come twice. -/
def FreshTokens (h : List Step) : Prop := (h.filterMap mintedToken).Nodup

theorem minted_last {h : List Step} {token : Str} {c : Credential} (hminted : Minted h token c) :
    ∃ front e, h = front ++ [e] ∧ mintedToken e = some token := by
  cases hminted with
  | issueToken hcall hresult => exact ⟨_, _, rfl, by rw [mintedToken, hresult]⟩
  | issueTokenForOrganization hcall hresult => exact ⟨_, _, rfl, by rw [mintedToken, hresult]⟩
  | rotateToken hold hkept hcall hresult => exact ⟨_, _, rfl, by rw [mintedToken, hresult]⟩

/-- A token that stands after it was retired was minted again. -/
theorem minted_since {front back : List Step} {e : Step} {token : Str} {c : Credential}
    (hstanding : Standing (front ++ e :: back) token c) (hretires : Retires e token) :
    token ∈ (e :: back).filterMap mintedToken := by
  obtain ⟨h₁, h₂, hcut, hminted, hkept⟩ := hstanding
  have hnot : e ∉ h₂ := fun hmem => hkept e hmem (Or.inl hretires)
  rcases List.append_eq_append_iff.mp hcut.symm with ⟨m, rfl, hrest⟩ | ⟨m, rfl, hrest⟩
  · exact absurd (hrest ▸ by simp) hnot
  · obtain ⟨init, last, hlast, htoken⟩ := minted_last hminted
    rcases List.eq_nil_or_concat m with rfl | ⟨m, x, rfl⟩
    · rw [List.nil_append] at hrest
      exact absurd (hrest ▸ List.mem_cons_self) hnot
    · rw [List.concat_eq_append] at hlast hrest
      rw [← List.append_assoc] at hlast
      obtain rfl := (List.cons.inj (List.append_inj' hlast rfl).2).1
      exact List.mem_filterMap.mpr ⟨x, hrest ▸ by simp, htoken⟩

theorem standing_minted {h : List Step} {token : Str} {c : Credential}
    (hstanding : Standing h token c) : token ∈ h.filterMap mintedToken := by
  obtain ⟨h₁, h₂, rfl, hminted, -⟩ := hstanding
  obtain ⟨init, last, rfl, htoken⟩ := minted_last hminted
  exact List.mem_filterMap.mpr ⟨last, by simp, htoken⟩

/-- What a successful rotation found: the token stood, and had not expired. -/
theorem rotated_standing (hinjective : Function.Injective hashToken) {front : List Step} {e : Step}
    {token replacement : Str} {lifetime : RotationLifetime}
    (run : (store hashToken).Run front e.before)
    (hstep : e.action.run hashToken e.before = (e.result, e.after))
    (hcall : e.action.operation = .rotateToken token lifetime)
    (hresult : e.result = .ok (.token replacement)) :
    ∃ c, Standing front token c ∧ expired c.expiresAtUnix (e.action.world.clock 0) = false := by
  rw [hresult] at hstep
  obtain ⟨c, hrow, hlive, -⟩ := resolve_rotated hinjective hcall hstep
  exact ⟨c, ((run_agrees hinjective run).rows _ _).mp hrow, hlive⟩

theorem rotated_once (hinjective : Function.Injective hashToken) {h : List Step} {db : Database}
    (run : (store hashToken).Run h db) :
    FreshTokens h → ∀ token, h.countP (rotates token) ≤ 1 := by
  refine run.history_induction
    (P := fun h _ => FreshTokens h → ∀ token, h.countP (rotates token) ≤ 1) ?_ ?_
  · intro db _ _ token
    simp
  · intro h db call result db' run ih hstep hfresh token
    have hfresh₀ : FreshTokens h := by
      unfold FreshTokens at hfresh ⊢
      rw [List.filterMap_append] at hfresh
      exact (List.nodup_append.mp hfresh).1
    rw [List.countP_append]
    by_cases hrotates : rotates token ⟨db, call, result, db'⟩ = true
    · -- this call rotates the token, so no earlier one did
      obtain ⟨lifetime, replacement, hcall, hresult⟩ := rotates_iff.mp hrotates
      obtain ⟨c, hstanding, -⟩ :=
        rotated_standing hinjective (e := ⟨db, call, result, db'⟩) run hstep hcall hresult
      have hnone : h.countP (rotates token) = 0 := by
        rw [List.countP_eq_zero]
        intro e he hearlier
        obtain ⟨front, back, rfl⟩ := List.append_of_mem he
        obtain ⟨lifetime₀, replacement₀, hcall₀, hresult₀⟩ := rotates_iff.mp hearlier
        obtain ⟨run₀, hstep₀⟩ := run.split rfl
        obtain ⟨c₀, hstanding₀, -⟩ := rotated_standing hinjective run₀ hstep₀ hcall₀ hresult₀
        have hsince := minted_since hstanding (.rotated _ _ hcall₀ hresult₀)
        have hbefore := standing_minted hstanding₀
        unfold FreshTokens at hfresh₀
        rw [List.filterMap_append] at hfresh₀
        exact (List.nodup_append.mp hfresh₀).2.2 _ hbefore _ hsince rfl
      rw [hnone, List.countP_singleton]
      split <;> omega
    · rw [List.countP_singleton, if_neg hrotates]
      exact ih hfresh₀ token

/-- **What a run of the identity store guarantees.** For any calls of any processes
in any order, every clock and every failure:

* a token resolves exactly to what it stands for, as long as it has not expired;
* after a rotation the old token resolves to nothing, and the new one to what the
  old one did, for as long as its own expiry allows;
* no token is rotated twice, when random tokens are new;
* a call that does not return leaves every table as it was. -/
theorem identity_run (hinjective : Function.Injective hashToken) {h : List Step} {db : Database}
    (run : (store hashToken).Run h db) :
    (∀ token w p o, resolve hashToken db token w = .ok ⟨p, o⟩ ↔
      w.failure 0 = none ∧ ∃ c, Standing h token c ∧ c.principalId = p ∧ c.organizationId = o ∧
        expired c.expiresAtUnix (w.clock 0) = false) ∧
    (∀ front e back token lifetime replacement, h = front ++ e :: back →
      e.action.operation = .rotateToken token lifetime → e.result = .ok (.token replacement) →
      ∃ c, Standing front token c ∧ expired c.expiresAtUnix (e.action.world.clock 0) = false ∧
        ∀ w context, resolve hashToken e.after token w ≠ .ok context ∧
          (resolve hashToken e.after replacement w = .ok context ↔
            w.failure 0 = none ∧ context = ⟨c.principalId, c.organizationId⟩ ∧
              expired (c.rotated lifetime e.action.world).expiresAtUnix (w.clock 0) = false)) ∧
    (FreshTokens h → ∀ token, h.countP (rotates token) ≤ 1) ∧
    (∀ e ∈ h, (∀ a, e.result ≠ .ok a) → e.after = e.before) := by
  refine ⟨?_, ?_, rotated_once hinjective run, ?_⟩
  · intro token w p o
    rw [resolve_eq_ok]
    simp only [(run_agrees hinjective run).rows, AuthenticatedContext.mk.injEq]
    constructor
    · rintro ⟨hfailure, c, hstanding, hlive, rfl, rfl⟩
      exact ⟨hfailure, c, hstanding, rfl, rfl, hlive⟩
    · rintro ⟨hfailure, c, hstanding, rfl, rfl, hlive⟩
      exact ⟨hfailure, c, hstanding, hlive, rfl, rfl⟩
  · rintro front e back token lifetime replacement rfl hcall hresult
    obtain ⟨run₀, hstep⟩ := run.split rfl
    have hreturned : e.action.run hashToken e.before = (.ok (.token replacement), e.after) := by
      rw [← hresult]
      exact hstep
    obtain ⟨c, hrow, hlive, hresolve⟩ := resolve_rotated hinjective hcall hreturned
    exact ⟨c, ((run_agrees hinjective run₀).rows _ _).mp hrow, hlive, hresolve⟩
  · intro e he hfailed
    exact run_kept (run.step_of_mem he) hfailed

/-- The lifetime that is asked for, or the span of the old token counted from `start`, ends after
`now`. -/
def Outlasts (c : Credential) (lifetime : RotationLifetime) (start now : Int) : Prop :=
  match lifetime, c.expiresAtUnix with
  | .Replaced .Never, _ => True
  | .Replaced (.Until instant), _ => now < instant
  | .Preserved, none => True
  | .Preserved, some expiresAt => now < saturate (start + saturate (expiresAt - c.createdAtUnix))

theorem Credential.rotated_live_iff {c : Credential} {lifetime : RotationLifetime} {w : World}
    {now : Int} : expired (c.rotated lifetime w).expiresAtUnix now = false ↔
      Outlasts c lifetime (w.clock 1) now := by
  unfold Credential.rotated Outlasts expired
  rcases lifetime with _ | (_ | instant)
  · rcases c.expiresAtUnix with _ | expiresAt
    · simp
    · simp
  · simp [TokenLifetime.expiresAt]
  · simp [TokenLifetime.expiresAt]

/-- One of the two tokens resolves, and not the other. -/
def OneLive (hashToken : Str → Str) (db : Database) (old new : Str) (w : World) : Prop :=
  ((∃ context, resolve hashToken db old w = .ok context) ∨
      ∃ context, resolve hashToken db new w = .ok context) ∧
    ¬((∃ context, resolve hashToken db old w = .ok context) ∧
      ∃ context, resolve hashToken db new w = .ok context)

/-- **Which rotations leave one token live.** Of the store's guarantees the one on rotations has a
condition: a rotation leaves exactly one of its two tokens live at a reading of the clock if and
only if the lifetime it was asked for reaches beyond that reading. -/
theorem identity_run_iff (hinjective : Function.Injective hashToken) {h : List Step} {db : Database}
    (run : (store hashToken).Run h db) :
    (∀ token w p o, resolve hashToken db token w = .ok ⟨p, o⟩ ↔
      w.failure 0 = none ∧ ∃ c, Standing h token c ∧ c.principalId = p ∧ c.organizationId = o ∧
        expired c.expiresAtUnix (w.clock 0) = false) ∧
    (∀ front e back token lifetime replacement, h = front ++ e :: back →
      e.action.operation = .rotateToken token lifetime → e.result = .ok (.token replacement) →
      ∃ c, Standing front token c ∧ expired c.expiresAtUnix (e.action.world.clock 0) = false ∧
        ∀ w, (∀ context, resolve hashToken e.after token w ≠ .ok context) ∧
          (∀ context, resolve hashToken e.after replacement w = .ok context →
            context = ⟨c.principalId, c.organizationId⟩) ∧
          (w.failure 0 = none → (OneLive hashToken e.after token replacement w ↔
            Outlasts c lifetime (e.action.world.clock 1) (w.clock 0)))) ∧
    (FreshTokens h → ∀ token, h.countP (rotates token) ≤ 1) ∧
    (∀ e ∈ h, (∀ a, e.result ≠ .ok a) → e.after = e.before) := by
  obtain ⟨hresolves, hrotation, honce, hkept⟩ := identity_run hinjective run
  refine ⟨hresolves, fun front e back token lifetime replacement hcut hcall hresult => ?_, honce,
    hkept⟩
  obtain ⟨c, hstanding, hlive, hafter⟩ :=
    hrotation front e back token lifetime replacement hcut hcall hresult
  refine ⟨c, hstanding, hlive, fun w => ⟨fun context => (hafter w context).1,
    fun context hnew => ((hafter w context).2.mp hnew).2.1, fun hquery => ?_⟩⟩
  have hold : ¬∃ context, resolve hashToken e.after token w = .ok context :=
    fun ⟨context, hcontext⟩ => (hafter w context).1 hcontext
  unfold OneLive
  rw [← Credential.rotated_live_iff]
  constructor
  · rintro ⟨hone, -⟩
    obtain ⟨context, hcontext⟩ := hone.resolve_left hold
    exact ((hafter w context).2.mp hcontext).2.2
  · intro hlasts
    exact ⟨.inr ⟨_, (hafter w _).2.mpr ⟨hquery, rfl, hlasts⟩⟩, fun hboth => hold hboth.1⟩

end Tokens

-- ---------------------------------------------------------------------------
-- A rotation to an instant that has passed
-- ---------------------------------------------------------------------------

/-- The history and the database after some calls on a new database. -/
def perform (hashToken : Str → Str) (calls : List Call) : List Step × Database :=
  calls.foldl (fun (h, db) call =>
    let (result, db') := call.run hashToken db
    (h ++ [⟨db, call, result, db'⟩], db')) ([], .empty)

theorem run_perform (hashToken : Str → Str) (calls : List Call) :
    (store hashToken).Run (perform hashToken calls).1 (perform hashToken calls).2 := by
  suffices h : ∀ (calls : List Call) (p : List Step × Database), (store hashToken).Run p.1 p.2 →
      (store hashToken).Run
        (calls.foldl (fun (h, db) call =>
          let (result, db') := call.run hashToken db
          (h ++ [⟨db, call, result, db'⟩], db')) p).1
        (calls.foldl (fun (h, db) call =>
          let (result, db') := call.run hashToken db
          (h ++ [⟨db, call, result, db'⟩], db')) p).2 from
    h calls ([], .empty) (.nil rfl)
  intro calls
  induction calls with
  | nil => exact fun p run => run
  | cons call calls ih => exact fun p run => ih _ (run.snoc rfl)

/-- The token of a draw of one repeated byte. -/
def sampleToken (byte : UInt8) : Str := tokenPrefix ++ hexOf tokenBytes fun _ => byte

def sampleDigest₁ : Str := "c53fcfc2c83b8533734212998a16c5b4f2a997c57b77f8849b695072f0717a01".toList

def sampleDigest₂ : Str := "a469eff843d0f1fcf064ca9bdcd15a1b8a49e057bda4b818ca0d6fe9303b3222".toList

/-- SHA-256 on the two tokens of the sample run, and something injective elsewhere. -/
def sampleHash (token : Str) : Str :=
  if token = sampleToken 1 then sampleDigest₁
  else if token = sampleToken 2 then sampleDigest₂
  else '#' :: token

theorem sampleHash_injective : Function.Injective sampleHash := by
  have hfirst : sampleDigest₁.head? = some 'c' := by decide +kernel
  have hsecond : sampleDigest₂.head? = some 'a' := by decide +kernel
  have hdigests : sampleDigest₂ ≠ sampleDigest₁ := by
    intro h
    rw [h, hfirst] at hsecond
    exact absurd hsecond (by decide)
  -- what it was computed from can be read off the digest
  let unhash : Str → Str := fun digest =>
    if digest = sampleDigest₁ then sampleToken 1
    else if digest = sampleDigest₂ then sampleToken 2
    else digest.tail
  have hleft : Function.LeftInverse unhash sampleHash := by
    intro token
    unfold sampleHash
    split
    · rename_i htoken
      show (if sampleDigest₁ = sampleDigest₁ then _ else _) = _
      rw [if_pos rfl, htoken]
    · split
      · rename_i htoken
        show (if sampleDigest₂ = sampleDigest₁ then _ else _) = _
        rw [if_neg hdigests, if_pos rfl, htoken]
      · have hne₁ : '#' :: token ≠ sampleDigest₁ := by
          intro h
          rw [← h] at hfirst
          exact absurd hfirst (by simp)
        have hne₂ : '#' :: token ≠ sampleDigest₂ := by
          intro h
          rw [← h] at hsecond
          exact absurd hsecond (by simp)
        show (if '#' :: token = sampleDigest₁ then _ else _) = _
        rw [if_neg hne₁, if_neg hne₂, List.tail_cons]
  exact hleft.injective

/-- Surroundings in which nothing fails: one reading of the clock, one byte. -/
def sampleWorld (now : Int) (byte : UInt8) : World :=
  ⟨fun _ => now, fun _ => none, fun _ => some fun _ => byte⟩

def samplePrincipal : PrincipalId := ⟨"usr_".toList ++ hexOf principalBytes fun _ => 0⟩

/-- A user, a token for it, and a rotation of that token. -/
def sampleCalls (lifetime : RotationLifetime) : List Call :=
  [⟨.createUser "ada".toList, sampleWorld 100 0⟩,
    ⟨.issueToken samplePrincipal .Never, sampleWorld 100 1⟩,
    ⟨.rotateToken (sampleToken 1) lifetime, sampleWorld 100 2⟩]

/-- The last call of the sample run is the rotation. -/
theorem sample_rotation (lifetime : RotationLifetime) :
    ∃ front e, (perform sampleHash (sampleCalls lifetime)).1 = front ++ e :: [] ∧
      e.action = ⟨.rotateToken (sampleToken 1) lifetime, sampleWorld 100 2⟩ ∧
      e.after = (perform sampleHash (sampleCalls lifetime)).2 ∧
      (perform sampleHash (sampleCalls lifetime)).1.getLast?.map Entry.result = some e.result :=
  ⟨_, _, rfl, rfl, rfl, rfl⟩

/-- A rotation to a lifetime without end: the old token is dead in whatever surroundings, the new
one is live whatever the clock says, and the old one was rotated once. -/
theorem identity_run_rotation :
    (∀ w context, resolve sampleHash (perform sampleHash (sampleCalls (.Replaced .Never))).2
      (sampleToken 1) w ≠ .ok context) ∧
    (∀ now, OneLive sampleHash (perform sampleHash (sampleCalls (.Replaced .Never))).2 (sampleToken 1)
      (sampleToken 2) (sampleWorld now 0)) ∧
    (perform sampleHash (sampleCalls (.Replaced .Never))).1.countP (rotates (sampleToken 1)) = 1 := by
  obtain ⟨-, hrotation, honce, -⟩ :=
    identity_run_iff sampleHash_injective (run_perform sampleHash (sampleCalls (.Replaced .Never)))
  obtain ⟨front, e, hcut, haction, hafter, hlast⟩ := sample_rotation (.Replaced .Never)
  have hcomputed : (perform sampleHash (sampleCalls (.Replaced .Never))).1.getLast?.map Entry.result =
        some (.ok (.token (sampleToken 2))) ∧
      ((perform sampleHash (sampleCalls (.Replaced .Never))).1.filterMap mintedToken).Nodup ∧
      0 < (perform sampleHash (sampleCalls (.Replaced .Never))).1.countP (rotates (sampleToken 1)) := by
    decide +kernel
  obtain ⟨hresult, hfresh, hrotated⟩ := hcomputed
  have honce' := honce hfresh (sampleToken 1)
  obtain ⟨c, -, -, hresolve⟩ := hrotation front e [] (sampleToken 1) (.Replaced .Never)
    (sampleToken 2) hcut (congrArg Call.operation haction)
    (Option.some.inj (hlast.symm.trans hresult))
  rw [← hafter]
  refine ⟨fun w context => (hresolve w).1 context, fun now => ?_, by omega⟩
  exact ((hresolve (sampleWorld now 0)).2.2 rfl).mpr trivial

/-- A rotation asked to expire in the past succeeds, and leaves no token live. -/
theorem rotation_to_the_past :
    ¬∀ h db, (store sampleHash).Run h db → ∀ front e back token lifetime replacement,
      h = front ++ e :: back → e.action.operation = .rotateToken token lifetime →
      e.result = .ok (.token replacement) →
      (∃ context, resolve sampleHash e.after token e.action.world = .ok context) ∨
        ∃ context, resolve sampleHash e.after replacement e.action.world = .ok context := by
  intro hlive
  obtain ⟨front, e, hcut, haction, hafter, hlast⟩ := sample_rotation (.Replaced (.Until 50))
  have hcomputed :
      (perform sampleHash (sampleCalls (.Replaced (.Until 50)))).1.getLast?.map Entry.result =
        some (.ok (.token (sampleToken 2))) ∧
      resolve sampleHash (perform sampleHash (sampleCalls (.Replaced (.Until 50)))).2
        (sampleToken 1) (sampleWorld 100 2) = .err .InvalidToken ∧
      resolve sampleHash (perform sampleHash (sampleCalls (.Replaced (.Until 50)))).2
        (sampleToken 2) (sampleWorld 100 2) = .err .ExpiredToken := by
    decide +kernel
  obtain ⟨hresult, hold, hnew⟩ := hcomputed
  have hone := hlive _ _ (run_perform sampleHash (sampleCalls (.Replaced (.Until 50)))) front e []
    (sampleToken 1) _ (sampleToken 2) hcut (congrArg Call.operation haction)
    (Option.some.inj (hlast.symm.trans hresult))
  rw [hafter, haction] at hone
  rw [hold, hnew] at hone
  simp at hone

end CamelidEnterprise.Identity

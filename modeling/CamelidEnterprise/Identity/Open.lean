import CamelidEnterprise.Identity.Rollback

/-!
# Camelid Enterprise — opening a database that is refused

`SqliteIdentityStore::open` of `crates/identity/src/lib.rs`: a check that the schema is not
newer, the switch to the WAL journal mode, which stays in the file, and `initialize_schema`,
which is one transaction.

* `openStore_untouched_iff` — a database whose schema is refused keeps its tables and its
  version; it keeps its journal mode as well exactly where that was WAL already, or the schema
  is newer. A negative version and foreign tables are refused after the switch.
-/

namespace CamelidEnterprise.Identity

open Foundation

/-- The journal modes a database file remembers. -/
inductive JournalMode
  | rollback
  | wal
deriving DecidableEq, Repr

/-- A database file as it lies on disk, with whatever else is in it. -/
structure StoredFile (ρ : Type) where
  database : DatabaseFile
  journalMode : JournalMode
  rest : ρ

/-- What an opening meets outside the file: the statements of the check, of the two pragmas and
of the transaction that fail, and whether the file system lets SQLite switch to WAL. -/
structure Surroundings where
  check : World
  journal : Option String
  walSupported : Bool
  foreignKeys : Option String
  world : World

/-- The pragmas of a connection take effect. -/
structure Surroundings.Connects (s : Surroundings) : Prop where
  check : s.check.failure 0 = none
  journal : s.journal = none
  wal : s.walSupported = true
  foreignKeys : s.foreignKeys = none

namespace Migration

/-- `ensure_supported_schema_version` -/
def ensureSupportedSchemaVersion : Migration Unit := do
  let version ← schemaVersion
  if version > identitySchemaVersion then
    Txn.throw (.UnsupportedSchemaVersion version identitySchemaVersion)
  else pure ()

end Migration

section Open

variable {ρ : Type} (path : String) (s : Surroundings)

/-- `from_connection` -/
def fromConnection (file : StoredFile ρ) : Outcome OpenError Unit × StoredFile ρ :=
  match s.foreignKeys with
  | some message => (.err (.Storage message), file)
  | none =>
    let (result, database) := Migration.initializeSchema.run s.world file.database
    (result, { file with database })

/-- The mode `PRAGMA journal_mode = WAL` leaves and reports: where WAL cannot be enabled, the
one that was. -/
def switchToWal (mode : JournalMode) : JournalMode := if s.walSupported then .wal else mode

/-- `SqliteIdentityStore::open` -/
def openStore (file : StoredFile ρ) : Outcome OpenError Unit × StoredFile ρ :=
  match (Migration.ensureSupportedSchemaVersion.run s.check file.database).1 with
  | .err e => (.err e, file)
  | .fault k => (.fault k, file)
  | .ok () =>
    match s.journal with
    | some message => (.err (.Storage message), file)
    | none =>
      let file := { file with journalMode := switchToWal s file.journalMode }
      if file.journalMode ≠ .wal then
        (.err (.Storage
          s!"identity database at {path} could not be switched to WAL journal mode (reported: delete)"),
          file)
      else fromConnection s file

end Open

-- ---------------------------------------------------------------------------
-- What a refused opening leaves
-- ---------------------------------------------------------------------------

theorem ensureSupportedSchemaVersion_run (w : World) (database : DatabaseFile) :
    (Migration.ensureSupportedSchemaVersion.run w database).1 =
      match w.failure 0 with
      | some message => .err (.Storage message)
      | none =>
        if identitySchemaVersion < database.userVersion then
          .err (.UnsupportedSchemaVersion database.userVersion identitySchemaVersion)
        else .ok () := by
  have hversion : Migration.schemaVersion w (.start database) =
      match w.failure 0 with
      | some message => (.err (.Storage message), .start database)
      | none => (.ok database.userVersion, (MigrationSession.start database).after database) := rfl
  unfold Migration.run Migration.ensureSupportedSchemaVersion
  dsimp only
  rw [Txn.bind_run, hversion]
  rcases w.failure 0 with _ | message
  · dsimp only
    by_cases hnewer : identitySchemaVersion < database.userVersion
    · rw [if_pos hnewer, if_pos hnewer]
      rfl
    · rw [if_neg hnewer, if_neg hnewer]
      rfl
  · rfl

section Refused

variable {ρ : Type} {path : String} {s : Surroundings} {file : StoredFile ρ} {e : OpenError}

/-- The errors of a database that is refused for its schema: the two that say so, and any error
of a connection whose pragmas took effect. -/
def RefusesSchema (s : Surroundings) (e : OpenError) : Prop :=
  (∃ found supported, e = .UnsupportedSchemaVersion found supported) ∨
    (∃ message, e = .MigrationIntegrity message) ∨ s.Connects

theorem connects_of_storage {message : String} (h : RefusesSchema s (.Storage message)) :
    s.Connects := by
  rcases h with ⟨_, _, h⟩ | ⟨_, h⟩ | h
  · cases h
  · cases h
  · exact h

theorem fromConnection_err (h : (fromConnection s file).1 = .err e) :
    (fromConnection s file).2 = file := by
  unfold fromConnection at h ⊢
  rcases hkeys : s.foreignKeys with _ | message
  · rw [hkeys] at h
    have hfailed : (Migration.initializeSchema.run s.world file.database).1 = .err e := h
    have hkept : (Migration.initializeSchema.run s.world file.database).2 = file.database :=
      Migration.run_kept Migration.initializeSchema_allOrNothing (by rw [hfailed]; simp)
    show ({ file with database := _ } : StoredFile ρ) = file
    rw [hkept]
  · rfl

/-- **What a refused database keeps.** Its tables, its version and everything else in the file
stay as they were. The journal mode does so exactly where it was WAL already or the version is
newer. -/
theorem openStore_untouched_iff (h : (openStore path s file).1 = .err e)
    (hrefused : RefusesSchema s e) :
    (openStore path s file).2.database = file.database ∧
      (openStore path s file).2.rest = file.rest ∧
      ((openStore path s file).2 = file ↔
        file.journalMode = .wal ∨ identitySchemaVersion < file.database.userVersion) := by
  unfold openStore at h ⊢
  rw [ensureSupportedSchemaVersion_run] at h ⊢
  rcases hcheck : s.check.failure 0 with _ | message
  · rw [hcheck] at h
    dsimp only at h ⊢
    by_cases hnewer : identitySchemaVersion < file.database.userVersion
    · -- refused by the check, in front of the switch
      rw [if_pos hnewer]
      exact ⟨rfl, rfl, iff_of_true rfl (.inr hnewer)⟩
    · rw [if_neg hnewer] at h ⊢
      dsimp only at h ⊢
      rcases hjournal : s.journal with _ | message
      · rw [hjournal] at h
        dsimp only at h ⊢
        by_cases hwal : switchToWal s file.journalMode ≠ .wal
        · rw [if_pos hwal] at h
          obtain rfl := Outcome.err.inj h
          exact absurd (if_pos (connects_of_storage hrefused).wal) hwal
        · rw [if_neg hwal] at h ⊢
          rw [fromConnection_err h]
          refine ⟨rfl, rfl, ?_⟩
          have hswitched : switchToWal s file.journalMode = .wal := not_not.mp hwal
          rw [hswitched]
          constructor
          · exact fun hsame => .inl (congrArg StoredFile.journalMode hsame).symm
          · intro hkept
            rw [← hkept.resolve_right hnewer]
      · rw [hjournal] at h
        obtain rfl := Outcome.err.inj h
        exact absurd ((connects_of_storage hrefused).journal) (by rw [hjournal]; simp)
  · rw [hcheck] at h
    obtain rfl := Outcome.err.inj h
    exact absurd ((connects_of_storage hrefused).check) (by rw [hcheck]; simp)

end Refused

-- ---------------------------------------------------------------------------
-- A negative version
-- ---------------------------------------------------------------------------

/-- A file of another program: a version no identity schema has, and no tables. -/
def negativeFile (mode : JournalMode) : StoredFile Unit where
  database := ⟨-1, none, none, none, none, none, []⟩
  journalMode := mode
  rest := ()

/-- Nothing fails. -/
def calmSurroundings : Surroundings :=
  ⟨⟨fun _ => 0, fun _ => none, fun _ => none⟩, none, true, none,
    ⟨fun _ => 0, fun _ => none, fun _ => none⟩⟩

theorem openStore_negative (mode : JournalMode) :
    (openStore "identity.sqlite" calmSurroundings (negativeFile mode)).1 =
      .err (.UnsupportedSchemaVersion (-1) 3) := by
  rcases mode
  · rfl
  · rfl

/-- A file in WAL mode is as it was. -/
theorem openStore_untouched_wal :
    (openStore "identity.sqlite" calmSurroundings (negativeFile .wal)).2 = negativeFile .wal :=
  ((openStore_untouched_iff (openStore_negative .wal) (.inl ⟨-1, 3, rfl⟩)).2.2).mpr (.inl rfl)

/-- A file with a rollback journal is refused for its version, and left in WAL mode. -/
theorem openStore_switches :
    (openStore "identity.sqlite" calmSurroundings (negativeFile .rollback)).1 =
        .err (.UnsupportedSchemaVersion (-1) 3) ∧
      (openStore "identity.sqlite" calmSurroundings (negativeFile .rollback)).2 =
        negativeFile .wal ∧
      (openStore "identity.sqlite" calmSurroundings (negativeFile .rollback)).2 ≠
        negativeFile .rollback := by
  have hswitched : (openStore "identity.sqlite" calmSurroundings (negativeFile .rollback)).2 =
      negativeFile .wal := rfl
  refine ⟨openStore_negative .rollback, hswitched, ?_⟩
  rw [hswitched]
  intro h
  exact absurd (congrArg StoredFile.journalMode h) (by decide)

end CamelidEnterprise.Identity

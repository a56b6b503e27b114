import Mathlib.Logic.Relation
import CamelidEnterprise.Foundation.Sha256
import CamelidEnterprise.Platform.Evidence

/-!
# Camelid Enterprise — what an ingested file leaves

A line has a `fate` that depends on nothing but the line: a row, or nothing when it
is no record or the database refuses it. `Absorbed` is what lines do to a table and
a summary, in terms of their fates alone, and `Absorbs` says of a piece of the code
that it does this and nothing else: when it returns, all of it; when it stops, the
rows of a front of the lines. One lemma for each function, from one statement up to
the loop over a file, and the fold over its lines does the same.

* `ingest_by_batch` — by batch is line by line; a file again stores nothing; and
  runs that stopped leave nothing a full run does not make good;
* `ingest_unblocked` — a file is taken in exactly when none of its records is
  refused outside class 22, and `ingest_blocked` is a file that is not.
-/

namespace CamelidEnterprise.PlatformStore

open Foundation

variable {ρ : Type}

-- ---------------------------------------------------------------------------
-- Fates
-- ---------------------------------------------------------------------------

/-- The row a line becomes, if it becomes one. -/
def World.fate (w : World ρ) (stream : EvidenceStream) (line : Str) : Option (EvidenceRow ρ) :=
  match evidenceKeys w stream line with
  | .ok keys => if (w.refusal stream line).isNone then some (w.row stream line keys) else none
  | .error _ => none

/-- The rows of the lines that become rows. -/
def World.storable (w : World ρ) (stream : EvidenceStream) (lines : List Str) :
    List (EvidenceRow ρ) :=
  lines.filterMap (w.fate stream)

/-- A record the database refuses, for a reason that is not class 22. -/
def World.Blocked (w : World ρ) (stream : EvidenceStream) (line : Str) : Prop :=
  (∃ keys, evidenceKeys w stream line = .ok keys) ∧
    ∃ error, w.refusal stream line = some error ∧ isUnstorableRecord error = false

/-- The lines of a file that count. -/
def nonBlank (lines : List Str) : List Str :=
  lines.filter fun line => decide (Foundation.Text.trim line ≠ [])

/-- `ingest_evidence_line` for one line after the other, its results counted. -/
def ingestLines (w : World ρ) (stream : EvidenceStream) :
    List Str → IngestSummary → Ingest ρ IngestSummary
  | [], summary => pure summary
  | line :: lines, summary => do
    let ingested ← ingestEvidenceLine w stream line
    ingestLines w stream lines (summary.count ingested)

@[simp] theorem storable_under (w : World ρ) (interruption : Nat → Option Interruption)
    (stream : EvidenceStream) :
    (w.under interruption).storable stream = w.storable stream := rfl

@[simp] theorem blocked_under (w : World ρ) (interruption : Nat → Option Interruption)
    (stream : EvidenceStream) (line : Str) :
    (w.under interruption).Blocked stream line ↔ w.Blocked stream line := Iff.rfl

theorem storable_append (w : World ρ) (stream : EvidenceStream) (lines more : List Str) :
    w.storable stream (lines ++ more) = w.storable stream lines ++ w.storable stream more :=
  List.filterMap_append

theorem fate_of_error {w : World ρ} {stream : EvidenceStream} {line : Str} {why : String}
    (h : evidenceKeys w stream line = .error why) : w.fate stream line = none := by
  unfold World.fate
  rw [h]

theorem fate_of_ok {w : World ρ} {stream : EvidenceStream} {line : Str} {keys : EvidenceKeys}
    (h : evidenceKeys w stream line = .ok keys) :
    w.fate stream line =
      if (w.refusal stream line).isNone then some (w.row stream line keys) else none := by
  unfold World.fate
  rw [h]

theorem fate_eq_some {w : World ρ} {stream : EvidenceStream} {line : Str} {row : EvidenceRow ρ} :
    w.fate stream line = some row ↔
      ∃ keys, evidenceKeys w stream line = .ok keys ∧ w.refusal stream line = none ∧
        row = w.row stream line keys := by
  constructor
  · intro h
    rcases hkeys : evidenceKeys w stream line with why | keys
    · rw [fate_of_error hkeys] at h
      cases h
    · rw [fate_of_ok hkeys] at h
      split at h
      · rename_i hnone
        exact ⟨keys, rfl, Option.isNone_iff_eq_none.mp hnone, (Option.some.inj h).symm⟩
      · cases h
  · rintro ⟨keys, hkeys, hnone, rfl⟩
    rw [fate_of_ok hkeys, hnone]
    rfl

/-- A line has a row, or it is no record or refused. -/
theorem length_storable (w : World ρ) (stream : EvidenceStream) (lines : List Str) :
    (w.storable stream lines).length + lines.countP
      (fun line => !(evidenceKeys w stream line).toBool || (w.refusal stream line).isSome) =
      lines.length := by
  induction lines with
  | nil => rfl
  | cons line lines ih =>
    have hfate : (w.fate stream line).isNone =
        (!(evidenceKeys w stream line).toBool || (w.refusal stream line).isSome) := by
      rcases hkeys : evidenceKeys w stream line with why | keys
      · rw [fate_of_error hkeys]
        rfl
      · rw [fate_of_ok hkeys]
        cases w.refusal stream line with
        | none => rfl
        | some error => rfl
    rw [List.countP_cons, ← hfate, List.length_cons, World.storable, List.filterMap_cons]
    unfold World.storable at ih
    cases hline : w.fate stream line with
    | none =>
      simp only [Option.isNone_none, if_true]
      omega
    | some row =>
      simp only [Option.isNone_some, Bool.false_eq_true, if_false, List.length_cons]
      omega

theorem row_key {w : World ρ} {stream : EvidenceStream} {line : Str} {row : EvidenceRow ρ}
    (h : w.fate stream line = some row) : row.lineSha256 = w.sha256 (Utf8.encode line) := by
  obtain ⟨keys, -, -, rfl⟩ := fate_eq_some.mp h
  rfl

-- ---------------------------------------------------------------------------
-- What lines do to a table and a summary
-- ---------------------------------------------------------------------------

/-- The tables with these rows offered to the table of a stream. -/
def EvidenceStore.offered (store : EvidenceStore ρ) (stream : EvidenceStream)
    (rows : List (EvidenceRow ρ)) : EvidenceStream → Table (EvidenceRow.lineSha256 (ρ := ρ)) :=
  Function.update store.tables stream ((store.tables stream).insertAll rows)

/-- The table has the rows of the lines, and each line is counted once: as stored where
the table grew by it, as present where it did not, as unreadable where it has no row. -/
structure Absorbed (w : World ρ) (stream : EvidenceStream) (lines : List Str)
    (store : EvidenceStore ρ) (summary : IngestSummary)
    (store' : EvidenceStore ρ) (summary' : IngestSummary) : Prop where
  tables : store'.tables = store.offered stream (w.storable stream lines)
  stored : summary'.stored + (store.tables stream).rows.length =
    summary.stored + (store'.tables stream).rows.length
  kept : summary'.stored + summary'.alreadyPresent =
    summary.stored + summary.alreadyPresent + (w.storable stream lines).length
  unreadable : summary'.unreadable + (w.storable stream lines).length =
    summary.unreadable + lines.length

/-- How a piece of the code may end: it returned, having absorbed these lines, none of
which is blocked; or it stopped after the rows of some of them, because a call failed
or a line is blocked. `count` is the summary its result stands for. -/
def Settled {α : Type} (w : World ρ) (stream : EvidenceStream) (lines : List Str)
    (summary : IngestSummary) (count : α → IngestSummary) (store : EvidenceStore ρ) :
    Outcome PlatformStoreError α × EvidenceStore ρ → Prop
  | (.ok a, store') =>
    Absorbed w stream lines store summary store' (count a) ∧ ∀ line ∈ lines, ¬w.Blocked stream line
  | (.err _, store') =>
    (∃ done, done <+: w.storable stream lines ∧ store'.tables = store.offered stream done) ∧
      ((∃ call, w.interruption call ≠ none) ∨ ∃ line ∈ lines, w.Blocked stream line)
  | (.fault _, _) => False

/-- It ends so from any store on. -/
def Absorbs {α : Type} (w : World ρ) (stream : EvidenceStream) (lines : List Str)
    (summary : IngestSummary) (x : Ingest ρ α) (count : α → IngestSummary) : Prop :=
  ∀ store, Settled w stream lines summary count store (x store)

theorem offered_nil (store : EvidenceStore ρ) (stream : EvidenceStream) :
    store.offered stream [] = store.tables := by
  unfold EvidenceStore.offered
  rw [Table.insertAll_nil, Function.update_eq_self]

@[simp] theorem offered_self (store : EvidenceStore ρ) (stream : EvidenceStream)
    (rows : List (EvidenceRow ρ)) :
    store.offered stream rows stream = (store.tables stream).insertAll rows :=
  Function.update_self ..

/-- Offering rows and then more rows. -/
theorem offered_offered {store store' : EvidenceStore ρ} {stream : EvidenceStream}
    {rows : List (EvidenceRow ρ)} (h : store'.tables = store.offered stream rows)
    (more : List (EvidenceRow ρ)) :
    store'.offered stream more = store.offered stream (rows ++ more) := by
  unfold EvidenceStore.offered at h ⊢
  rw [h, Function.update_self, Function.update_idem, Table.insertAll_append]

theorem Absorbed.refl (w : World ρ) (stream : EvidenceStream) (store : EvidenceStore ρ)
    (summary : IngestSummary) : Absorbed w stream [] store summary store summary where
  tables := (offered_nil store stream).symm
  stored := rfl
  kept := rfl
  unreadable := rfl

theorem Absorbed.append {w : World ρ} {stream : EvidenceStream} {lines more : List Str}
    {store store' store'' : EvidenceStore ρ} {summary summary' summary'' : IngestSummary}
    (hfirst : Absorbed w stream lines store summary store' summary')
    (hmore : Absorbed w stream more store' summary' store'' summary'') :
    Absorbed w stream (lines ++ more) store summary store'' summary'' := by
  have hlength : (w.storable stream (lines ++ more)).length =
      (w.storable stream lines).length + (w.storable stream more).length := by
    rw [storable_append, List.length_append]
  have hstored := hfirst.stored
  have hstored' := hmore.stored
  have hkept := hfirst.kept
  have hkept' := hmore.kept
  have hunreadable := hfirst.unreadable
  have hunreadable' := hmore.unreadable
  refine ⟨?_, ?_, ?_, ?_⟩
  · rw [hmore.tables, offered_offered hfirst.tables, storable_append]
  · omega
  · rw [hlength]
    omega
  · rw [hlength, List.length_append]
    omega

/-- Only the tables of the store count. -/
theorem Settled.of_tables {α : Type} {w : World ρ} {stream : EvidenceStream} {lines : List Str}
    {summary : IngestSummary} {count : α → IngestSummary} {store called : EvidenceStore ρ}
    (htables : called.tables = store.tables) {out : Outcome PlatformStoreError α × EvidenceStore ρ}
    (h : Settled w stream lines summary count called out) :
    Settled w stream lines summary count store out := by
  obtain ⟨tables, calls⟩ := store
  obtain ⟨tables', calls'⟩ := called
  obtain rfl : tables' = tables := htables
  rcases out with ⟨a | error | fault, store'⟩
  · obtain ⟨⟨hput, hstored, hkept, hunreadable⟩, hclear⟩ := h
    exact ⟨⟨hput, hstored, hkept, hunreadable⟩, hclear⟩
  · exact h
  · exact h

theorem Absorbs.pure {α : Type} (w : World ρ) (stream : EvidenceStream) {a : α}
    {count : α → IngestSummary} : Absorbs w stream [] (count a) (Pure.pure a) count := by
  intro store
  exact ⟨Absorbed.refl w stream store (count a), by simp⟩

theorem Absorbs.done (w : World ρ) (stream : EvidenceStream) (summary : IngestSummary) :
    Absorbs w stream [] summary (Pure.pure summary) id := by
  intro store
  exact ⟨Absorbed.refl w stream store summary, by simp⟩

/-- The rule of sequence. -/
theorem Absorbs.bind {α β : Type} {w : World ρ} {stream : EvidenceStream} {lines more : List Str}
    {summary : IngestSummary} {x : Ingest ρ α} {f : α → Ingest ρ β} {count : α → IngestSummary}
    {count' : β → IngestSummary} (hx : Absorbs w stream lines summary x count)
    (hf : ∀ a, Absorbs w stream more (count a) (f a) count') :
    Absorbs w stream (lines ++ more) summary (x >>= f) count' := by
  intro store
  have hfirst := hx store
  rw [Effect.run_bind]
  rcases hrun : x store with ⟨a | error | fault, store'⟩
  · rw [hrun] at hfirst
    obtain ⟨habsorbed, hclear⟩ := hfirst
    have hrest := hf a store'
    show Settled w stream (lines ++ more) summary count' store (f a store')
    rcases hrun' : f a store' with ⟨b | error | fault, store''⟩
    · rw [hrun'] at hrest
      refine ⟨habsorbed.append hrest.1, fun line hline => ?_⟩
      rcases List.mem_append.mp hline with h | h
      · exact hclear line h
      · exact hrest.2 line h
    · rw [hrun'] at hrest
      obtain ⟨⟨done, hdone, htables⟩, hwhy⟩ := hrest
      refine ⟨⟨w.storable stream lines ++ done, ?_, ?_⟩, ?_⟩
      · rw [storable_append]
        exact (List.prefix_append_right_inj _).mpr hdone
      · rw [htables, offered_offered habsorbed.tables]
      · rcases hwhy with hcall | ⟨line, hline, hblocked⟩
        · exact .inl hcall
        · exact .inr ⟨line, List.mem_append_right _ hline, hblocked⟩
    · rw [hrun'] at hrest
      exact hrest
  · rw [hrun] at hfirst
    obtain ⟨⟨done, hdone, htables⟩, hwhy⟩ := hfirst
    refine ⟨⟨done, ?_, htables⟩, ?_⟩
    · rw [storable_append]
      exact hdone.trans (List.prefix_append _ _)
    · rcases hwhy with hcall | ⟨line, hline, hblocked⟩
      · exact .inl hcall
      · exact .inr ⟨line, List.mem_append_left _ hline, hblocked⟩
  · rw [hrun] at hfirst
    exact hfirst

/-- A line that is no record is counted wherever it stands. -/
theorem Absorbs.unreadable {α : Type} {w : World ρ} {stream : EvidenceStream}
    {front rest : List Str} {line : Str} {summary : IngestSummary} {x : Ingest ρ α}
    {count : α → IngestSummary} {why : String} (hline : evidenceKeys w stream line = .error why)
    (hx : Absorbs w stream (front ++ rest) summary.countUnreadable x count) :
    Absorbs w stream (front ++ line :: rest) summary x count := by
  have hstorable : w.storable stream (front ++ line :: rest) = w.storable stream (front ++ rest) := by
    rw [storable_append, storable_append]
    congr 1
    exact List.filterMap_cons_none (fate_of_error hline)
  have hmem : ∀ other, other ∈ front ++ line :: rest → other = line ∨ other ∈ front ++ rest := by
    intro other hother
    rcases List.mem_append.mp hother with h | h
    · exact .inr (List.mem_append_left _ h)
    · rcases List.mem_cons.mp h with rfl | h
      · exact .inl rfl
      · exact .inr (List.mem_append_right _ h)
  have hfree : ¬w.Blocked stream line := by
    rintro ⟨⟨keys, hkeys⟩, -⟩
    rw [hline] at hkeys
    cases hkeys
  -- the line adds nothing to what is storable, and one to what is counted
  intro store
  have hrun := hx store
  rcases hresult : x store with ⟨a | error | fault, store'⟩
  · rw [hresult] at hrun
    obtain ⟨habsorbed, hclear⟩ := hrun
    refine ⟨⟨?_, habsorbed.stored, ?_, ?_⟩, fun other hother => ?_⟩
    · rw [hstorable]
      exact habsorbed.tables
    · rw [hstorable]
      exact habsorbed.kept
    · have hcounted := habsorbed.unreadable
      show (count a).unreadable + _ = _
      have hsummary : summary.countUnreadable.unreadable = summary.unreadable + 1 := rfl
      rw [hstorable, List.length_append, List.length_cons]
      rw [hsummary, List.length_append] at hcounted
      omega
    · rcases hmem other hother with rfl | h
      · exact hfree
      · exact hclear other h
  · rw [hresult] at hrun
    obtain ⟨⟨done, hdone, htables⟩, hwhy⟩ := hrun
    refine ⟨⟨done, hstorable ▸ hdone, htables⟩, ?_⟩
    rcases hwhy with hcall | ⟨other, hother, hblocked⟩
    · exact .inl hcall
    · refine .inr ⟨other, ?_, hblocked⟩
      rcases List.mem_append.mp hother with h | h
      · exact List.mem_append_left _ h
      · exact List.mem_append_right _ (List.mem_cons_of_mem _ h)
  · rw [hresult] at hrun
    exact hrun

-- ---------------------------------------------------------------------------
-- Statements
-- ---------------------------------------------------------------------------

/-- The entries of a batch are the records of their lines. -/
def Keyed (w : World ρ) (stream : EvidenceStream) (batch : List (Str × EvidenceKeys)) : Prop :=
  ∀ entry ∈ batch, evidenceKeys w stream entry.1 = .ok entry.2

theorem client_cases (w : World ρ) (store : EvidenceStore ρ) :
    client w store = (.ok (), store.called) ∨
      w.interruption store.calls ≠ none ∧ ∃ error, client w store = (.err error, store.called) := by
  unfold client
  cases hcall : w.interruption store.calls with
  | none => exact .inl rfl
  | some interruption => exact .inr ⟨by simp, _, rfl⟩

/-- The rows of a batch nothing of which is refused are what its lines become. -/
theorem storable_batch {w : World ρ} {stream : EvidenceStream} {batch : List (Str × EvidenceKeys)}
    (hkeyed : Keyed w stream batch)
    (hnone : (batch.filterMap fun entry => w.refusal stream entry.1) = []) :
    w.storable stream (batch.map Prod.fst) = batch.map fun entry => w.row stream entry.1 entry.2 := by
  induction batch with
  | nil => rfl
  | cons entry batch ih =>
    have hfree : w.refusal stream entry.1 = none :=
      List.filterMap_eq_nil_iff.mp hnone entry List.mem_cons_self
    have hrest : (batch.filterMap fun entry => w.refusal stream entry.1) = [] :=
      List.filterMap_eq_nil_iff.mpr fun other hother =>
        List.filterMap_eq_nil_iff.mp hnone other (List.mem_cons_of_mem _ hother)
    have hfate := fate_of_ok (hkeyed entry List.mem_cons_self)
    rw [hfree] at hfate
    rw [List.map_cons, List.map_cons, World.storable, List.filterMap_cons_some hfate]
    exact congrArg _ (ih (fun other hother => hkeyed other (List.mem_cons_of_mem _ hother)) hrest)

/-- What a statement did: it failed for a reason of its own, with or without taking
effect; it took effect and says how the table grew; or a line of it was refused. -/
theorem executeBatch_cases {w : World ρ} {stream : EvidenceStream}
    {batch : List (Str × EvidenceKeys)} (hkeyed : Keyed w stream batch) (store : EvidenceStore ρ) :
    (∃ error done store', executeBatch w stream batch store = (.ok (.error error), store') ∧
      isUnstorableRecord error = false ∧ w.interruption store.calls ≠ none ∧
      done <+: w.storable stream (batch.map Prod.fst) ∧
      store'.tables = store.offered stream done) ∨
    (∃ rows store', executeBatch w stream batch store = (.ok (.ok rows), store') ∧
      (∀ line ∈ batch.map Prod.fst, w.refusal stream line = none) ∧
      (w.storable stream (batch.map Prod.fst)).length = batch.length ∧
      store'.tables = store.offered stream (w.storable stream (batch.map Prod.fst)) ∧
      rows + (store.tables stream).rows.length = (store'.tables stream).rows.length ∧
      rows ≤ batch.length) ∨
    ∃ line ∈ batch.map Prod.fst, ∃ error, w.refusal stream line = some error ∧
      executeBatch w stream batch store = (.ok (.error error), store.called) := by
  unfold executeBatch
  dsimp only
  cases hcall : w.interruption store.calls with
  | some interruption =>
    -- the connection is lost: the statement has taken effect whole, or not at all
    dsimp only
    split
    · rename_i hlanded
      refine .inl ⟨_, _, _, rfl, interruption.notOfRecord, by simp, List.prefix_refl _, ?_⟩
      rw [storable_batch hkeyed hlanded.2]
      rfl
    · exact .inl ⟨_, [], _, rfl, interruption.notOfRecord, by simp, List.nil_prefix,
        (offered_nil store stream).symm⟩
  | none =>
    dsimp only
    split
    · rename_i hnone
      have hrows := storable_batch hkeyed hnone
      obtain ⟨added, hadded, hsub⟩ := (store.tables stream).rows_insertAll
        (batch.map fun entry => w.row stream entry.1 entry.2)
      have hlength := hsub.length_le
      have hgrown : ((w.insert stream batch store).tables stream).rows.length =
          (store.tables stream).rows.length + added.length := by
        show ((store.offered stream _) stream).rows.length = _
        rw [offered_self, hadded, List.length_append]
      rw [List.length_map] at hlength
      refine .inr (.inl ⟨_, _, rfl, ?_, ?_, ?_, ?_, ?_⟩)
      · intro line hline
        obtain ⟨entry, hentry, rfl⟩ := List.mem_map.mp hline
        exact List.filterMap_eq_nil_iff.mp hnone entry hentry
      · rw [hrows, List.length_map]
      · rw [hrows]
        rfl
      · show _ = ((w.insert stream batch store).tables stream).rows.length
        omega
      · omega
    · rename_i hsome
      have hreported := w.reported_mem _ hsome
      obtain ⟨entry, hentry, hrefusal⟩ := List.mem_filterMap.mp hreported
      exact .inr (.inr ⟨entry.1, List.mem_map_of_mem hentry, _, hrefusal, rfl⟩)

-- ---------------------------------------------------------------------------
-- One line, one batch
-- ---------------------------------------------------------------------------

/-- A refused line that is not blocked has no row and is counted as unreadable. -/
theorem Absorbed.refused {w : World ρ} {stream : EvidenceStream} {line : Str}
    {error : DatabaseError} (hrefusal : w.refusal stream line = some error)
    {store store' : EvidenceStore ρ} (htables : store'.tables = store.tables)
    (summary : IngestSummary) :
    Absorbed w stream [line] store summary store' summary.countUnreadable := by
  have hnone : w.storable stream [line] = [] := by
    refine List.filterMap_eq_nil_iff.mpr fun other hother => ?_
    obtain rfl := List.mem_singleton.mp hother
    rcases hkeys : evidenceKeys w stream other with why | keys
    · exact fate_of_error hkeys
    · rw [fate_of_ok hkeys, hrefusal]
      rfl
  refine ⟨?_, ?_, ?_, ?_⟩
  · rw [hnone, offered_nil, htables]
  · rw [htables]
    rfl
  · rw [hnone]
    rfl
  · rw [hnone]
    rfl

/-- The tables of a store that has only made calls. -/
theorem offered_called (store : EvidenceStore ρ) (stream : EvidenceStream)
    (rows : List (EvidenceRow ρ)) : store.called.offered stream rows = store.offered stream rows :=
  rfl

theorem readInserted_refused {error : DatabaseError} (h : isUnstorableRecord error = true) :
    readInserted (.error error) = (pure (.Unreadable error.message) : Ingest ρ Ingested) :=
  if_pos h

theorem readInserted_failed {error : DatabaseError} (h : isUnstorableRecord error = false) :
    (readInserted (.error error) : Ingest ρ Ingested) = Effect.throw (databaseError error) :=
  if_neg (by rw [h]; exact Bool.false_ne_true)

theorem insertEvidence_run {w : World ρ} {stream : EvidenceStream} {line : Str}
    {keys : EvidenceKeys} {store store' : EvidenceStore ρ} {answer : Except DatabaseError Nat}
    (hclient : client w store = (.ok (), store.called))
    (hrun : executeBatch w stream [(line, keys)] store.called = (.ok answer, store')) :
    insertEvidence w stream line keys store =
      readInserted (answer.map fun rows => if rows = 0 then none else some ()) store' := by
  have hquery : queryOpt w stream line keys store.called =
      (.ok (answer.map fun rows => if rows = 0 then none else some ()), store') :=
    Effect.bind_ok hrun _
  exact (Effect.bind_ok hclient _).trans (Effect.bind_ok hquery _)

/-- A line whose refusal is of class 22 is not blocked. -/
theorem not_blocked_of_class {w : World ρ} {stream : EvidenceStream} {line : Str}
    {error : DatabaseError} (hrefusal : w.refusal stream line = some error)
    (hclass : isUnstorableRecord error = true) : ¬w.Blocked stream line := by
  rintro ⟨-, error', hrefusal', hclass'⟩
  rw [hrefusal] at hrefusal'
  obtain rfl := Option.some.inj hrefusal'
  rw [hclass] at hclass'
  cases hclass'

theorem not_blocked_of_none {w : World ρ} {stream : EvidenceStream} {line : Str}
    (hrefusal : w.refusal stream line = none) : ¬w.Blocked stream line := by
  rintro ⟨-, error, hrefusal', -⟩
  rw [hrefusal] at hrefusal'
  cases hrefusal'

theorem absorbs_insertEvidence {w : World ρ} {stream : EvidenceStream} {line : Str}
    {keys : EvidenceKeys} (hkeys : evidenceKeys w stream line = .ok keys) (summary : IngestSummary) :
    Absorbs w stream [line] summary (insertEvidence w stream line keys) summary.count := by
  intro store
  have hkeyed : Keyed w stream [(line, keys)] := by
    intro entry hentry
    obtain rfl := List.mem_singleton.mp hentry
    exact hkeys
  rcases client_cases w store with hclient | ⟨hcall, error, hclient⟩
  · rcases executeBatch_cases hkeyed store.called with
      ⟨error, done, store', hrun, hclass, hcall, hdone, htables⟩ |
      ⟨rows, store', hrun, hfree, hlength, htables, hgrown, hle⟩ |
      ⟨line', hline', error, hrefusal, hrun⟩
    · rw [insertEvidence_run hclient hrun]
      dsimp only [Except.map]
      rw [readInserted_failed hclass]
      exact ⟨⟨done, hdone, htables⟩, .inl ⟨_, hcall⟩⟩
    · rw [insertEvidence_run hclient hrun]
      have hclear : ∀ other ∈ [line], ¬w.Blocked stream other := fun other hother =>
        not_blocked_of_none (hfree other hother)
      rw [offered_called] at htables
      have hgrown' : rows + (store.tables stream).rows.length = (store'.tables stream).rows.length :=
        hgrown
      have hone : (w.storable stream [line]).length = 1 := hlength
      -- `execute` answers 0 for a key that is present and 1 for a new one
      rcases Nat.eq_zero_or_pos rows with rfl | hpos
      · refine ⟨⟨htables, ?_, ?_, ?_⟩, hclear⟩
        · show summary.stored + _ = _
          omega
        · rw [hone]
          rfl
        · rw [hone]
          rfl
      · obtain rfl : rows = 1 := Nat.le_antisymm hle hpos
        refine ⟨⟨htables, ?_, ?_, ?_⟩, hclear⟩
        · show summary.stored + 1 + _ = _
          omega
        · show summary.stored + 1 + summary.alreadyPresent = _
          omega
        · rw [hone]
          rfl
    · rw [insertEvidence_run hclient hrun]
      obtain rfl : line' = line := List.mem_singleton.mp hline'
      dsimp only [Except.map]
      -- the class of the error decides between `Unreadable` and a failed ingestion
      cases hclass : isUnstorableRecord error with
      | true =>
        rw [readInserted_refused hclass]
        refine ⟨Absorbed.refused hrefusal (show store.called.called.tables = store.tables from rfl)
          summary, fun other hother => ?_⟩
        obtain rfl := List.mem_singleton.mp hother
        exact not_blocked_of_class hrefusal hclass
      | false =>
        rw [readInserted_failed hclass]
        exact ⟨⟨[], List.nil_prefix, (offered_nil store stream).symm⟩,
          .inr ⟨_, hline', ⟨keys, hkeys⟩, error, hrefusal, hclass⟩⟩
  · unfold insertEvidence
    rw [Effect.run_bind, hclient]
    exact ⟨⟨[], List.nil_prefix, (offered_nil store stream).symm⟩, .inl ⟨_, hcall⟩⟩

theorem absorbs_insertEach {w : World ρ} {stream : EvidenceStream}
    {batch : List (Str × EvidenceKeys)} (hkeyed : Keyed w stream batch) (summary : IngestSummary) :
    Absorbs w stream (batch.map Prod.fst) summary (insertEach w stream batch summary) id := by
  induction batch generalizing summary with
  | nil =>
    exact Absorbs.done w stream summary
  | cons entry batch ih =>
    obtain ⟨line, keys⟩ := entry
    have hline := absorbs_insertEvidence (hkeyed (line, keys) List.mem_cons_self) summary
    exact hline.bind fun ingested =>
      ih (fun other hother => hkeyed other (List.mem_cons_of_mem _ hother)) (summary.count ingested)

theorem readBatch_refused (w : World ρ) (stream : EvidenceStream)
    (batch : List (Str × EvidenceKeys)) (summary : IngestSummary) {error : DatabaseError}
    (h : isUnstorableRecord error = true) :
    readBatch w stream batch summary (.error error) = insertEach w stream batch summary :=
  if_pos h

theorem readBatch_failed (w : World ρ) (stream : EvidenceStream)
    (batch : List (Str × EvidenceKeys)) (summary : IngestSummary) {error : DatabaseError}
    (h : isUnstorableRecord error = false) :
    readBatch w stream batch summary (.error error) = Effect.throw (databaseError error) :=
  if_neg (by rw [h]; exact Bool.false_ne_true)

theorem ingestBatch_run {w : World ρ} {stream : EvidenceStream} {batch : List (Str × EvidenceKeys)}
    {summary : IngestSummary} {store store' : EvidenceStore ρ} {answer : Except DatabaseError Nat}
    (hclient : client w store = (.ok (), store.called))
    (hrun : executeBatch w stream batch store.called = (.ok answer, store')) :
    ingestBatch w stream batch summary store = readBatch w stream batch summary answer store' :=
  (Effect.bind_ok hclient _).trans (Effect.bind_ok hrun _)

/-- A batch by one statement, or by one for each of its lines. -/
theorem absorbs_ingestBatch {w : World ρ} {stream : EvidenceStream}
    {batch : List (Str × EvidenceKeys)} (hkeyed : Keyed w stream batch) (summary : IngestSummary) :
    Absorbs w stream (batch.map Prod.fst) summary (ingestBatch w stream batch summary) id := by
  intro store
  rcases client_cases w store with hclient | ⟨hcall, error, hclient⟩
  · rcases executeBatch_cases hkeyed store.called with
      ⟨error, done, store', hrun, hclass, hcall, hdone, htables⟩ |
      ⟨rows, store', hrun, hfree, hlength, htables, hgrown, hle⟩ |
      ⟨line, hline, error, hrefusal, hrun⟩
    · rw [ingestBatch_run hclient hrun, readBatch_failed w stream batch summary hclass]
      exact ⟨⟨done, hdone, htables⟩, .inl ⟨_, hcall⟩⟩
    · rw [ingestBatch_run hclient hrun]
      have hgrown' : rows + (store.tables stream).rows.length = (store'.tables stream).rows.length :=
        hgrown
      refine ⟨⟨htables, ?_, ?_, ?_⟩, fun other hother => not_blocked_of_none (hfree other hother)⟩
      · show summary.stored + rows + _ = _
        omega
      · show summary.stored + rows + (summary.alreadyPresent + (batch.length - rows)) = _
        omega
      · rw [hlength, List.length_map]
        rfl
    · rw [ingestBatch_run hclient hrun]
      cases hclass : isUnstorableRecord error with
      | true =>
        -- nothing of the batch is there yet: its lines are taken one by one
        rw [readBatch_refused w stream batch summary hclass]
        exact (absorbs_insertEach hkeyed summary store.called.called).of_tables
          (show store.called.called.tables = store.tables from rfl)
      | false =>
        rw [readBatch_failed w stream batch summary hclass]
        obtain ⟨entry, hentry, rfl⟩ := List.mem_map.mp hline
        exact ⟨⟨[], List.nil_prefix, (offered_nil store stream).symm⟩, .inr ⟨_, hline,
          ⟨_, hkeyed entry hentry⟩, error, hrefusal, hclass⟩⟩
  · unfold ingestBatch
    rw [Effect.run_bind, hclient]
    exact ⟨⟨[], List.nil_prefix, (offered_nil store stream).symm⟩, .inl ⟨_, hcall⟩⟩

-- ---------------------------------------------------------------------------
-- Files
-- ---------------------------------------------------------------------------

theorem Keyed.snoc {w : World ρ} {stream : EvidenceStream} {batch : List (Str × EvidenceKeys)}
    {line : Str} {keys : EvidenceKeys} (hkeyed : Keyed w stream batch)
    (hkeys : evidenceKeys w stream line = .ok keys) : Keyed w stream (batch ++ [(line, keys)]) := by
  intro entry hentry
  rcases List.mem_append.mp hentry with h | h
  · exact hkeyed entry h
  · obtain rfl := List.mem_singleton.mp h
    exact hkeys

theorem keyed_nil (w : World ρ) (stream : EvidenceStream) : Keyed w stream [] :=
  fun _ hentry => absurd hentry List.not_mem_nil

/-- The loop absorbs the batch it has and the lines ahead, wherever the batch is cut. -/
theorem absorbs_ingestLoop {w : World ρ} {stream : EvidenceStream} (lines : List Str) :
    ∀ {batch : List (Str × EvidenceKeys)}, Keyed w stream batch → ∀ summary,
      Absorbs w stream (batch.map Prod.fst ++ nonBlank lines) summary
        (ingestLoop w stream lines batch summary) id := by
  induction lines with
  | nil =>
    intro batch hkeyed summary
    unfold ingestLoop
    rw [show nonBlank [] = [] from rfl, List.append_nil]
    by_cases hbatch : batch = []
    · subst hbatch
      exact Absorbs.done w stream summary
    · rw [if_pos hbatch]
      exact absorbs_ingestBatch hkeyed summary
  | cons line lines ih =>
    intro batch hkeyed summary
    unfold ingestLoop
    by_cases hblank : Foundation.Text.trim line = []
    · rw [if_pos hblank]
      have hskip : nonBlank (line :: lines) = nonBlank lines :=
        List.filter_cons_of_neg (by simpa using hblank)
      rw [hskip]
      exact ih hkeyed summary
    · rw [if_neg hblank]
      have htaken : nonBlank (line :: lines) = line :: nonBlank lines :=
        List.filter_cons_of_pos (by simpa using hblank)
      rw [htaken]
      -- a full batch is absorbed here and the rest from an empty one
      have hflush : ∀ {batch' : List (Str × EvidenceKeys)}, Keyed w stream batch' → ∀ summary',
          Absorbs w stream (batch'.map Prod.fst ++ nonBlank lines) summary'
            (if batch'.length = ingestBatchLines then do
              let summary ← ingestBatch w stream batch' summary'
              ingestLoop w stream lines [] summary
            else ingestLoop w stream lines batch' summary') id := by
        intro batch' hkeyed' summary'
        split
        · exact (absorbs_ingestBatch hkeyed' summary').bind fun summary'' =>
            ih (keyed_nil w stream) summary''
        · exact ih hkeyed' summary'
      rcases hkeys : evidenceKeys w stream line with why | keys
      · have hpushed : pushLine w stream line batch summary = (batch, summary.countUnreadable) := by
          unfold pushLine
          rw [hkeys]
        rw [hpushed]
        exact Absorbs.unreadable hkeys (hflush hkeyed summary.countUnreadable)
      · have hpushed : pushLine w stream line batch summary =
            (batch ++ [(line, keys)], summary) := by
          unfold pushLine
          rw [hkeys]
        rw [hpushed, ← List.singleton_append, ← List.append_assoc,
          show batch.map Prod.fst ++ [line] = (batch ++ [(line, keys)]).map Prod.fst from
            by rw [List.map_append]; rfl]
        exact hflush (hkeyed.snoc hkeys) summary

theorem absorbs_ingestEvidence (w : World ρ) (stream : EvidenceStream) (contents : Str) :
    Absorbs w stream (nonBlank (Foundation.Text.lines contents)) .default
      (ingestEvidence w stream contents) id :=
  absorbs_ingestLoop _ (keyed_nil w stream) .default

theorem absorbs_ingestEvidenceLine (w : World ρ) (stream : EvidenceStream) (line : Str)
    (summary : IngestSummary) :
    Absorbs w stream [line] summary (ingestEvidenceLine w stream line) summary.count := by
  unfold ingestEvidenceLine
  rcases hkeys : evidenceKeys w stream line with why | keys
  · have hcounted : Absorbs w stream ([] ++ []) (summary.count (.Unreadable why))
        (Pure.pure (Ingested.Unreadable why) : Ingest ρ Ingested) summary.count :=
      Absorbs.pure w stream
    exact hcounted.unreadable hkeys
  · exact absorbs_insertEvidence hkeys summary

theorem absorbs_ingestLines (w : World ρ) (stream : EvidenceStream) (lines : List Str) :
    ∀ summary, Absorbs w stream lines summary (ingestLines w stream lines summary) id := by
  induction lines with
  | nil => exact fun summary => Absorbs.done w stream summary
  | cons line lines ih =>
    intro summary
    exact (absorbs_ingestEvidenceLine w stream line summary).bind fun ingested =>
      ih (summary.count ingested)

-- ---------------------------------------------------------------------------
-- Runs
-- ---------------------------------------------------------------------------

/-- Wherever it ends, the rows of a front of the lines are in the table, and no others. -/
theorem Absorbs.front {α : Type} {w : World ρ} {stream : EvidenceStream} {lines : List Str}
    {summary : IngestSummary} {x : Ingest ρ α} {count : α → IngestSummary}
    (hx : Absorbs w stream lines summary x count) (store : EvidenceStore ρ) :
    ∃ done, done <+: w.storable stream lines ∧ (x store).2.tables = store.offered stream done := by
  have hend := hx store
  rcases hrun : x store with ⟨a | error | fault, store'⟩
  · rw [hrun] at hend
    exact ⟨_, List.prefix_refl _, hend.1.tables⟩
  · rw [hrun] at hend
    exact hend.1
  · rw [hrun] at hend
    exact absurd hend id

theorem Absorbs.returned {α : Type} {w : World ρ} {stream : EvidenceStream} {lines : List Str}
    {summary : IngestSummary} {x : Ingest ρ α} {count : α → IngestSummary}
    (hx : Absorbs w stream lines summary x count) {store after : EvidenceStore ρ} {a : α}
    (hrun : x store = (.ok a, after)) :
    Absorbed w stream lines store summary after (count a) ∧
      ∀ line ∈ lines, ¬w.Blocked stream line := by
  have hend := hx store
  rw [hrun] at hend
  exact hend

/-- With every call answered and no line blocked it returns. -/
theorem Absorbs.returns {α : Type} {w : World ρ} {stream : EvidenceStream} {lines : List Str}
    {summary : IngestSummary} {x : Ingest ρ α} {count : α → IngestSummary}
    (hx : Absorbs w stream lines summary x count) (hquiet : ∀ call, w.interruption call = none)
    (hclear : ∀ line ∈ lines, ¬w.Blocked stream line) (store : EvidenceStore ρ) :
    ∃ a after, x store = (.ok a, after) := by
  have hend := hx store
  rcases hrun : x store with ⟨a | error | fault, after⟩
  · exact ⟨a, after, rfl⟩
  · rw [hrun] at hend
    rcases hend.2 with ⟨call, hcall⟩ | ⟨line, hline, hblocked⟩
    · exact absurd (hquiet call) hcall
    · exact absurd hblocked (hclear line hline)
  · rw [hrun] at hend
    exact absurd hend id

/-- What lines do to a table and a summary is one thing. -/
theorem Absorbed.unique {w : World ρ} {stream : EvidenceStream} {lines : List Str}
    {store store' store'' : EvidenceStore ρ} {summary summary' summary'' : IngestSummary}
    (h : Absorbed w stream lines store summary store' summary')
    (h' : Absorbed w stream lines store summary store'' summary'') :
    summary' = summary'' ∧ store'.tables = store''.tables := by
  have htables : store'.tables = store''.tables := h.tables.trans h'.tables.symm
  have hstored := h.stored
  have hkept := h.kept
  have hunreadable := h.unreadable
  have hstored' := h'.stored
  have hkept' := h'.kept
  have hunreadable' := h'.unreadable
  rw [htables] at hstored
  refine ⟨?_, htables⟩
  obtain ⟨stored, alreadyPresent, unreadable⟩ := summary'
  obtain ⟨stored', alreadyPresent', unreadable'⟩ := summary''
  dsimp only at *
  obtain rfl : stored = stored' := by omega
  obtain rfl : alreadyPresent = alreadyPresent' := by omega
  obtain rfl : unreadable = unreadable' := by omega
  rfl

/-- From this store the code returns this summary and leaves these tables. -/
def Returns (x : Ingest ρ IngestSummary) (store : EvidenceStore ρ) (summary : IngestSummary)
    (tables : EvidenceStream → Table (EvidenceRow.lineSha256 (ρ := ρ))) : Prop :=
  ∃ after, x store = (.ok summary, after) ∧ after.tables = tables

/-- Two pieces of code that absorb the same lines return the same, if both return. -/
theorem Absorbs.transfer {w : World ρ} {interruption : Nat → Option Interruption}
    {stream : EvidenceStream} {lines : List Str} {summary : IngestSummary}
    {x y : Ingest ρ IngestSummary} (hx : Absorbs (w.under interruption) stream lines summary x id)
    (hy : Absorbs w.quiet stream lines summary y id) {store : EvidenceStore ρ}
    {summary' : IngestSummary} {tables : EvidenceStream → Table (EvidenceRow.lineSha256 (ρ := ρ))}
    (h : Returns x store summary' tables) : Returns y store summary' tables := by
  obtain ⟨after, hrun, rfl⟩ := h
  obtain ⟨habsorbed, hclear⟩ := hx.returned hrun
  obtain ⟨summary'', after', hrun'⟩ := hy.returns (fun _ => rfl) hclear store
  have habsorbed' := (hy.returned hrun').1
  obtain ⟨htables, hstored, hkept, hunreadable⟩ := habsorbed
  obtain ⟨heq, heq'⟩ := habsorbed'.unique ⟨htables, hstored, hkept, hunreadable⟩
  rw [show summary'' = summary' from heq] at hrun'
  exact ⟨after', hrun', heq'⟩

/-- One run over a file: some calls may fail, and it may return or stop. -/
def Attempt (w : World ρ) (stream : EvidenceStream) (contents : Str)
    (store store' : EvidenceStore ρ) : Prop :=
  ∃ interruption, store' = (ingestEvidence (w.under interruption) stream contents store).2

theorem offered_congr {store : EvidenceStore ρ} {stream : EvidenceStream}
    {rows rows' : List (EvidenceRow ρ)}
    (h : (store.tables stream).insertAll rows = (store.tables stream).insertAll rows') :
    store.offered stream rows = store.offered stream rows' := by
  unfold EvidenceStore.offered
  rw [h]

/-- A front of the rows, offered where a front is: the longer of the two is there. -/
theorem offered_front (store : EvidenceStore ρ) (stream : EvidenceStream)
    {rows done more : List (EvidenceRow ρ)} (hdone : done <+: rows) (hmore : more <+: rows) :
    ∃ longer, longer <+: rows ∧ more <+: longer ∧
      store.offered stream (done ++ more) = store.offered stream longer := by
  rcases List.prefix_or_prefix_of_prefix hdone hmore with h | h
  · refine ⟨more, hmore, List.prefix_refl _, offered_congr ?_⟩
    rw [Table.insertAll_append, Table.insertAll_resume h]
  · refine ⟨done, hdone, h, offered_congr ?_⟩
    rw [Table.insertAll_append, Table.insertAll_front h]

/-- However many runs there have been, the rows of a front of the lines are there. -/
theorem attempts_front {w : World ρ} {stream : EvidenceStream} {contents : Str}
    {store store' : EvidenceStore ρ}
    (h : Relation.ReflTransGen (Attempt w stream contents) store store') :
    ∃ done, done <+: w.storable stream (nonBlank (Foundation.Text.lines contents)) ∧
      store'.tables = store.offered stream done := by
  induction h with
  | refl => exact ⟨[], List.nil_prefix, (offered_nil store stream).symm⟩
  | tail _ hattempt ih =>
    obtain ⟨done, hdone, htables⟩ := ih
    obtain ⟨interruption, rfl⟩ := hattempt
    obtain ⟨more, hmore, htables'⟩ :=
      (absorbs_ingestEvidence (w.under interruption) stream contents).front _
    obtain ⟨longer, hlonger, -, heq⟩ := offered_front store stream hdone hmore
    refine ⟨longer, hlonger, ?_⟩
    rw [htables', offered_offered htables, heq]

/-- Lines whose rows are all there are absorbed without a change. -/
theorem ingest_again {w : World ρ} {stream : EvidenceStream} {contents : Str}
    {store store' : EvidenceStore ρ}
    (hstore : store'.tables =
      store.offered stream (w.storable stream (nonBlank (Foundation.Text.lines contents))))
    (interruption : Nat → Option Interruption) :
    (ingestEvidence (w.under interruption) stream contents store').2.tables = store'.tables := by
  obtain ⟨done, hdone, htables⟩ :=
    (absorbs_ingestEvidence (w.under interruption) stream contents).front store'
  rw [storable_under] at hdone
  rw [htables, offered_offered hstore, hstore]
  refine offered_congr ?_
  rw [Table.insertAll_append, Table.insertAll_front hdone]

/-- The first of the rows with a key is the only one, when lines have keys of their own. -/
theorem find_storable {w : World ρ} {stream : EvidenceStream} {lines : List Str}
    (hdigest : ∀ line ∈ lines, ∀ line' ∈ lines,
      w.sha256 (Utf8.encode line) = w.sha256 (Utf8.encode line') → line = line')
    {row : EvidenceRow ρ} :
    ((w.storable stream lines).find? fun row' => decide (row'.lineSha256 = row.lineSha256)) = some row ↔
      ∃ line ∈ lines, w.fate stream line = some row := by
  constructor
  · intro hfind
    exact List.mem_filterMap.mp (List.mem_of_find?_eq_some hfind)
  · rintro ⟨line, hline, hfate⟩
    cases hfind : (w.storable stream lines).find? fun row' =>
        decide (row'.lineSha256 = row.lineSha256) with
    | none =>
      have hnone := List.find?_eq_none.mp hfind row (List.mem_filterMap.mpr ⟨line, hline, hfate⟩)
      exact absurd (decide_eq_true rfl) hnone
    | some row' =>
      have hkey : row'.lineSha256 = row.lineSha256 := by
        have := List.find?_some hfind
        simpa using this
      obtain ⟨line', hline', hfate'⟩ := List.mem_filterMap.mp (List.mem_of_find?_eq_some hfind)
      rw [row_key hfate, row_key hfate'] at hkey
      obtain rfl := hdigest line' hline' line hline hkey
      rw [hfate] at hfate'
      exact hfate'.symm

-- ---------------------------------------------------------------------------
-- A line and its surroundings
-- ---------------------------------------------------------------------------

def tsKey : Str := "ts".toList
def requestIdKey : Str := "request_id".toList

/-- The line `{"ts":1,"request_id":"..."}`. -/
def idLine (id : Str) : Str :=
  ['{', '"', 't', 's', '"', ':', '1', ',', '"', 'r', 'e', 'q', 'u', 'e', 's', 't', '_', 'i', 'd',
    '"', ':', '"'] ++ id ++ ['"', '}']

def quotedId (id : Str) : Str := '"' :: (id ++ ['"'])

theorem encode_idLine (id : Str) : ∃ rest, Utf8.encode (idLine id) = 0x7b :: rest := ⟨_, rfl⟩

theorem encode_quotedId (id : Str) : ∃ rest, Utf8.encode (quotedId id) = 0x22 :: rest := ⟨_, rfl⟩

/-- What a JSON library reads in this line and in the values in it. -/
def idDocument (id : Str) (body : List UInt8) : Option Json.Document :=
  if body = Utf8.encode (idLine id) then
    some (.object [(tsKey, .number (.PosInt 1)), (requestIdKey, .string id)])
  else if body = [0x31] then some (.number (.PosInt 1))
  else if body = Utf8.encode (quotedId id) then some (.string id)
  else none

theorem idDocument_values (id : Str) : idDocument id [0x31] = some (.number (.PosInt 1)) ∧
    idDocument id (Utf8.encode (quotedId id)) = some (.string id) := by
  obtain ⟨rest, hline⟩ := encode_idLine id
  obtain ⟨rest', hquoted⟩ := encode_quotedId id
  unfold idDocument
  rw [hline, hquoted]
  constructor
  · rw [if_neg (by simp), if_pos rfl]
  · rw [if_neg (by simp), if_neg (by simp), if_pos rfl]

def idParser (id : Str) : Json.Parser where
  document := idDocument id
  entries body :=
    if body = Utf8.encode (idLine id) then
      some [(tsKey, [0x31]), (requestIdKey, Utf8.encode (quotedId id))]
    else none
  toVec _ := none
  entries_object := by
    intro body members h
    obtain ⟨hts, hid⟩ := idDocument_values id
    unfold idDocument at h
    split at h
    · rename_i hbody
      obtain rfl := Json.Document.object.inj (Option.some.inj h)
      exact ⟨_, if_pos hbody, .cons ⟨rfl, hts⟩ (.cons ⟨rfl, hid⟩ .nil)⟩
    split at h
    · cases h
    split at h
    · cases h
    · cases h
  entries_other := by
    intro body doc h hother
    unfold idDocument at h
    split at h
    · exact absurd (Option.some.inj h).symm (hother _)
    · rename_i hbody
      exact if_neg hbody
  document_toVec := by
    intro value body h
    cases h

/-- A database that refuses what it is told to. -/
def idWorld (id : Str) (refusal : Str → Option DatabaseError) : World (Option Json.Value) where
  parser := idParser id
  parseError _ := "expected value at line 1 column 1"
  sha256 := Sha256.digest
  jsonb line := (idParser id).fromSlice (Utf8.encode line)
  refusal _ := refusal
  reported errors := errors.headD ⟨none, "", []⟩
  reported_mem := by
    intro errors hne
    obtain ⟨error, rest, rfl⟩ := List.exists_cons_of_ne_nil hne
    exact List.mem_cons_self
  interruption _ := none

def emptyStore : EvidenceStore ρ := ⟨fun _ => .empty, 0⟩

theorem evidenceKeys_idLine {id : Str} (hid : id ≠ []) (refusal : Str → Option DatabaseError) :
    evidenceKeys (idWorld id refusal) .GatewayAudit (idLine id) =
      .ok ⟨some id, none, Format.double.ofInt 1⟩ := by
  have hread : (idWorld id refusal).parser.fromSlice (Utf8.encode (idLine id)) =
      some (.Object (Json.collect [] [(tsKey, .number (.PosInt 1)), (requestIdKey, .string id)])) := by
    show ((if _ then _ else _ : Option Json.Document)).map _ = _
    rw [if_pos rfl]
    rfl
  have hts : timestamp (Json.Map.get "ts".toList
      (Json.collect [] [(tsKey, .number (.PosInt 1)), (requestIdKey, .string id)])) =
        some (Format.double.ofInt 1) := by
    rw [Json.get_collect]
    show timestamp (some (.Number (.PosInt 1))) = _
    decide +kernel
  have hrequest : requestId .GatewayAudit (Json.Map.get "request_id".toList
      (Json.collect [] [(tsKey, .number (.PosInt 1)), (requestIdKey, .string id)])) =
        some (some id) := by
    rw [Json.get_collect]
    show (if id ≠ [] then some (some id) else none) = _
    rw [if_pos hid]
  have horganization : organization (Json.Map.get "organization".toList
      (Json.collect [] [(tsKey, .number (.PosInt 1)), (requestIdKey, .string id)])) = none := by
    rw [Json.get_collect]
    rfl
  unfold evidenceKeys
  rw [hread]
  dsimp only
  rw [hts]
  dsimp only
  rw [hrequest]
  dsimp only
  rw [horganization]

/-- The line is the one line of a file of it. -/
theorem nonBlank_idLine {id : Str} (hid : '\n' ∉ id) :
    nonBlank (Foundation.Text.lines (idLine id)) = [idLine id] := by
  have hfeed : '\n' ∉ idLine id := by
    simp [idLine, hid]
  have htrim : Foundation.Text.trim (idLine id) ≠ [] := by
    simp [Foundation.Text.trim, idLine, Foundation.Text.whiteSpace]
  rw [Foundation.Text.lines_single hfeed (by simp [idLine])]
  exact List.filter_cons_of_pos (by simpa using htrim)

/-- **Batches.** A run over a file returns what the fold over its lines returns, and
leaves the same tables; where calls fail, a run that returns all the same is no
different. It returns unless a call fails or a line is blocked. Every line that is not
blank is counted once. The file again stores nothing. And after any runs, whether they
returned or stopped, one that returns leaves the prior rows and those of the file's
lines, a row for each line the table can hold and has no row for. -/
theorem ingest_by_batch (w : World ρ) (stream : EvidenceStream) (contents : Str) :
    (∀ store summary tables,
      Returns (ingestEvidence w.quiet stream contents) store summary tables ↔
        Returns (ingestLines w.quiet stream (nonBlank (Foundation.Text.lines contents)) .default)
          store summary tables) ∧
    (∀ interruption store summary tables,
      Returns (ingestEvidence (w.under interruption) stream contents) store summary tables →
        Returns (ingestEvidence w.quiet stream contents) store summary tables) ∧
    (∀ interruption store summary tables,
      Returns (ingestLines (w.under interruption) stream (nonBlank (Foundation.Text.lines contents))
          .default) store summary tables →
        Returns (ingestLines w.quiet stream (nonBlank (Foundation.Text.lines contents)) .default)
          store summary tables) ∧
    ((∀ line ∈ nonBlank (Foundation.Text.lines contents), ¬w.Blocked stream line) → ∀ store,
      ∃ summary tables, Returns (ingestEvidence w.quiet stream contents) store summary tables) ∧
    (∀ interruption store summary tables,
      Returns (ingestEvidence (w.under interruption) stream contents) store summary tables →
      summary.stored + summary.alreadyPresent + summary.unreadable =
        (nonBlank (Foundation.Text.lines contents)).length) ∧
    (∀ interruption store summary tables,
      Returns (ingestEvidence (w.under interruption) stream contents) store summary tables →
      ∀ interruption' store', store'.tables = tables →
        (ingestEvidence (w.under interruption') stream contents store').2.tables = tables ∧
          ∀ summary' after, ingestEvidence (w.under interruption') stream contents store' =
            (.ok summary', after) → summary'.stored = 0) ∧
    ∀ store store', Relation.ReflTransGen (Attempt w stream contents) store store' →
      ∀ interruption summary tables,
        Returns (ingestEvidence (w.under interruption) stream contents) store' summary tables →
        (∀ other, other ≠ stream → tables other = store.tables other) ∧
        ((∀ line ∈ nonBlank (Foundation.Text.lines contents),
            ∀ line' ∈ nonBlank (Foundation.Text.lines contents),
            w.sha256 (Utf8.encode line) = w.sha256 (Utf8.encode line') → line = line') →
          ∀ row, row ∈ (tables stream).rows ↔
            row ∈ (store.tables stream).rows ∨
              (store.tables stream).find row.lineSha256 = none ∧
                ∃ line ∈ nonBlank (Foundation.Text.lines contents),
                  w.fate stream line = some row) := by
  -- both ways of running absorb the same lines, and every clause is read off `Absorbs`
  have hbatch := fun interruption => absorbs_ingestEvidence (w.under interruption) stream contents
  have hlines := fun interruption => absorbs_ingestLines (w.under interruption) stream
    (nonBlank (Foundation.Text.lines contents)) .default
  refine ⟨fun store summary tables => ⟨?_, ?_⟩, ?_, ?_, ?_, ?_, ?_, ?_⟩
  · exact fun h => (hbatch _).transfer (hlines _) h
  · exact fun h => (hlines _).transfer (hbatch _) h
  · exact fun interruption store summary tables h => (hbatch interruption).transfer (hbatch _) h
  · exact fun interruption store summary tables h => (hlines interruption).transfer (hlines _) h
  · intro hclear store
    obtain ⟨summary, after, hrun⟩ := (hbatch fun _ => none).returns (fun _ => rfl) hclear store
    exact ⟨summary, _, after, hrun, rfl⟩
  · rintro interruption store summary tables ⟨after, hrun, -⟩
    obtain ⟨⟨-, -, hkept, hunreadable⟩, -⟩ := (hbatch interruption).returned hrun
    simp only [IngestSummary.default, id_eq] at hkept hunreadable
    omega
  · -- a second run finds every key present
    rintro interruption store summary tables ⟨after, hrun, rfl⟩ interruption' store' hstore
    have habsorbed := ((hbatch interruption).returned hrun).1
    have hagain := ingest_again (w := w) (hstore.trans habsorbed.tables) interruption'
    refine ⟨hagain.trans hstore, fun summary' after' hrun' => ?_⟩
    have hstored := ((hbatch interruption').returned hrun').1.stored
    rw [hrun'] at hagain
    rw [show after'.tables = store'.tables from hagain] at hstored
    simp only [IngestSummary.default, id_eq] at hstored
    omega
  · -- the attempts before have stored some first part of the lines
    rintro store store' hattempts interruption summary tables ⟨after, hrun, rfl⟩
    obtain ⟨done, hdone, hstore'⟩ := attempts_front hattempts
    have htables : after.tables = store.offered stream
        (w.storable stream (nonBlank (Foundation.Text.lines contents))) := by
      rw [((hbatch interruption).returned hrun).1.tables, storable_under, offered_offered hstore']
      refine offered_congr ?_
      rw [Table.insertAll_append, Table.insertAll_resume hdone]
    rw [htables]
    refine ⟨fun other hother => Function.update_of_ne hother .., fun hdigest row => ?_⟩
    rw [offered_self, Table.mem_insertAll, find_storable hdigest]

/-- A file of a record, a line that is none, and the record again. -/
def thriceFile : Str := idLine ['r'] ++ '\n' :: 'x' :: '\n' :: idLine ['r']

/-- The connection is lost after the second call has landed. -/
def lostAfterward : Nat → Option Interruption
  | 1 => some ⟨⟨none, "connection closed", []⟩, true, rfl⟩
  | _ => none

/-- One row, however often it was offered: a run whose connection is lost stops with an error,
and the next one counts three lines and leaves the row of the record. -/
theorem ingest_by_batch_thrice : ∃ summary tables,
    (ingestEvidence ((idWorld ['r'] fun _ => none).under lostAfterward) .GatewayAudit thriceFile
      emptyStore).1.failure.isSome = true ∧
    Returns (ingestEvidence (idWorld ['r'] fun _ => none).quiet .GatewayAudit thriceFile)
      (ingestEvidence ((idWorld ['r'] fun _ => none).under lostAfterward) .GatewayAudit thriceFile
        emptyStore).2 summary tables ∧
    summary.stored + summary.alreadyPresent + summary.unreadable = 3 ∧
    ∀ row, row ∈ (tables .GatewayAudit).rows ↔
      (idWorld ['r'] fun _ => none).fate .GatewayAudit (idLine ['r']) = some row := by
  obtain ⟨-, -, -, hreturns, hcount, -, hrows⟩ :=
    ingest_by_batch (idWorld ['r'] fun _ => none) .GatewayAudit thriceFile
  have hlines : nonBlank (Foundation.Text.lines thriceFile) =
      [idLine ['r'], ['x'], idLine ['r']] := by decide +kernel
  rw [hlines] at hreturns hcount hrows
  obtain ⟨summary, tables, hrun⟩ := hreturns (fun _ _ => not_blocked_of_none rfl)
    (ingestEvidence ((idWorld ['r'] fun _ => none).under lostAfterward) .GatewayAudit thriceFile
      emptyStore).2
  refine ⟨summary, tables, by decide +kernel, hrun, hcount _ _ _ _ hrun, fun row => ?_⟩
  obtain ⟨-, hset⟩ := hrows emptyStore _ (.single ⟨lostAfterward, rfl⟩) _ _ _ hrun
  have hdigests : Sha256.digest (Utf8.encode (idLine ['r'])) ≠ Sha256.digest (Utf8.encode ['x']) := by
    decide +kernel
  have hdigest : ∀ line ∈ [idLine ['r'], ['x'], idLine ['r']],
      ∀ line' ∈ [idLine ['r'], ['x'], idLine ['r']],
      (idWorld ['r'] fun _ => none).sha256 (Utf8.encode line) =
        (idWorld ['r'] fun _ => none).sha256 (Utf8.encode line') → line = line' := by
    intro line hline line' hline' hsame
    simp only [List.mem_cons, List.not_mem_nil, or_false] at hline hline'
    rcases hline with rfl | rfl | rfl <;> rcases hline' with rfl | rfl | rfl
    all_goals first | rfl | exact absurd hsame hdigests | exact absurd hsame.symm hdigests
  rw [hset hdigest row]
  constructor
  · rintro (hold | ⟨-, line, hline, hfate⟩)
    · exact absurd hold List.not_mem_nil
    · simp only [List.mem_cons, List.not_mem_nil, or_false] at hline
      rcases hline with rfl | rfl | rfl
      · exact hfate
      · exact absurd hfate (by simp [World.fate, show evidenceKeys (idWorld ['r'] fun _ => none)
          .GatewayAudit ['x'] = .error _ from rfl])
      · exact hfate
  · intro hfate
    exact .inr ⟨rfl, _, List.mem_cons_self, hfate⟩

/-- The file is taken in: a run with every call answered returns, each line that is no
record or is refused is counted as unreadable, and every other line is in the table. -/
def TakesIn (w : World ρ) (stream : EvidenceStream) (contents : Str) (store : EvidenceStore ρ) :
    Prop :=
  ∃ summary after, ingestEvidence w.quiet stream contents store = (.ok summary, after) ∧
    summary.unreadable = (nonBlank (Foundation.Text.lines contents)).countP
      (fun line => !(evidenceKeys w stream line).toBool || (w.refusal stream line).isSome) ∧
    ∀ line ∈ nonBlank (Foundation.Text.lines contents), ∀ keys,
      evidenceKeys w stream line = .ok keys → w.refusal stream line = none →
        (after.tables stream).find (w.sha256 (Utf8.encode line)) ≠ none

/-- A run that returns met no record that is refused outside class 22. -/
theorem TakesIn.unblocked {w : World ρ} {stream : EvidenceStream} {contents : Str}
    {store : EvidenceStore ρ} (h : TakesIn w stream contents store) {line : Str}
    (hline : line ∈ nonBlank (Foundation.Text.lines contents)) {keys : EvidenceKeys}
    (hkeys : evidenceKeys w stream line = .ok keys) {error : DatabaseError}
    (hrefusal : w.refusal stream line = some error) : isUnstorableRecord error = true := by
  obtain ⟨summary, after, hrun, -, -⟩ := h
  by_contra hclass
  exact ((absorbs_ingestEvidence w.quiet stream contents).returned hrun).2 line hline
    ⟨⟨keys, hkeys⟩, error, hrefusal, by simpa using hclass⟩

/-- **No line blocks a file.** A file is taken in exactly when no record of it is
refused outside class 22. -/
theorem ingest_unblocked (w : World ρ) (stream : EvidenceStream) (contents : Str)
    (store : EvidenceStore ρ) :
    TakesIn w stream contents store ↔
      ∀ line ∈ nonBlank (Foundation.Text.lines contents), ∀ keys error,
        evidenceKeys w stream line = .ok keys → w.refusal stream line = some error →
          isUnstorableRecord error = true := by
  have hbatch := absorbs_ingestEvidence w.quiet stream contents
  constructor
  · exact fun h line hline keys error hkeys hrefusal => h.unblocked hline hkeys hrefusal
  · intro hclass
    have hclear : ∀ line ∈ nonBlank (Foundation.Text.lines contents),
        ¬w.quiet.Blocked stream line := by
      rintro line hline ⟨⟨keys, hkeys⟩, error, hrefusal, hnot⟩
      rw [hclass line hline keys error hkeys hrefusal] at hnot
      cases hnot
    obtain ⟨summary, after, hrun⟩ := hbatch.returns (fun _ => rfl) hclear store
    have habsorbed := (hbatch.returned hrun).1
    refine ⟨summary, after, hrun, ?_, ?_⟩
    · have hunreadable := habsorbed.unreadable
      have hsplit := length_storable w stream (nonBlank (Foundation.Text.lines contents))
      rw [World.quiet, storable_under] at hunreadable
      simp only [IngestSummary.default, id_eq] at hunreadable
      omega
    · intro line hline keys hkeys hnone
      have hfate : w.fate stream line = some (w.row stream line keys) :=
        fate_eq_some.mpr ⟨keys, hkeys, hnone, rfl⟩
      rw [habsorbed.tables, offered_self]
      exact Table.find_insertAll_ne_none (List.mem_filterMap.mpr ⟨line, hline, hfate⟩)

/-- A request id of a million characters. -/
def longId : Str := List.replicate 1000000 'x'

/-- The index on `request_id` takes no row of that size. -/
def indexRowSize : DatabaseError where
  code := some ['5', '4', '0', '0', '0']
  message := "db error"
  causes := ["ERROR: index row size 11464 exceeds btree version 4 maximum 2704 for index " ++
    "\"gateway_audit_request_id_idx\""]

/-- A run over a file of a line that is refused so ends with the error of the line. -/
theorem not_takesIn_idLine {id : Str} (hid : id ≠ []) (hfeed : '\n' ∉ id) :
    ¬TakesIn (idWorld id fun line => if line = idLine id then some indexRowSize else none)
      .GatewayAudit (idLine id) emptyStore := by
  intro htaken
  have hrefusal : (idWorld id fun line =>
      if line = idLine id then some indexRowSize else none).refusal .GatewayAudit (idLine id) =
        some indexRowSize := if_pos rfl
  have hclass := htaken.unblocked (by rw [nonBlank_idLine hfeed]; exact List.mem_singleton.mpr rfl)
    (evidenceKeys_idLine hid _) hrefusal
  exact absurd hclass (by decide)

/-- Not every file is taken in. -/
theorem ingest_blocked : ¬∀ (w : World (Option Json.Value)) (stream : EvidenceStream)
    (contents : Str) (store : EvidenceStore (Option Json.Value)),
    TakesIn w stream contents store := by
  intro hall
  have hx : ∀ c ∈ longId, c = 'x' := fun c hc => (List.mem_replicate.mp hc).2
  have hfeed : '\n' ∉ longId := fun h => absurd (hx _ h) (by decide)
  have hne : longId ≠ [] := by
    intro h
    have hlength := congrArg List.length h
    rw [longId, List.length_replicate, List.length_nil] at hlength
    omega
  exact not_takesIn_idLine hne hfeed (hall _ _ _ _)

end CamelidEnterprise.PlatformStore

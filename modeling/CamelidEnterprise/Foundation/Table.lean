import Mathlib.Data.List.Nodup

/-!
# Keyed tables

A table of a relational database with a primary key: its rows in the order they
were inserted, no two with one key. The key is a column or several columns of the
row, so it is a function of it and no second copy that could disagree.

* `Table.find` — the row of a key (`find_eq_some`, `find_eq_none`);
* `Table.insertNew` — one more row, under a key that is free;
* `Table.insertAbsent`, `Table.insertAll` — rows whose keys are not there yet, the
  others passed over; `insertAll_resume` says that a part done before changes nothing;
* `Table.update` — rewrite every row, under the key it has;
* `Table.delete` — drop the rows a condition picks; `Table.count` says how many
  those are, which is what a `DELETE` reports.
-/

namespace Foundation

/-- Rows no two of which agree on `key`. -/
structure Table {κ ρ : Type} (key : ρ → κ) where
  rows : List ρ
  keys_nodup : (rows.map key).Nodup

namespace Table

variable {κ ρ : Type} {key : ρ → κ}

def empty : Table key := ⟨[], List.nodup_nil⟩

@[simp] theorem rows_empty : (empty : Table key).rows = [] := rfl

/-- The rows a condition does not pick. -/
def delete (T : Table key) (picks : ρ → Bool) : Table key where
  rows := T.rows.filter fun row => !picks row
  keys_nodup := T.keys_nodup.sublist (List.filter_sublist.map key)

/-- How many rows a condition picks. -/
def count (T : Table key) (picks : ρ → Bool) : Nat := T.rows.countP picks

/-- Every row rewritten, under the key it has. -/
def update (T : Table key) (f : ρ → ρ) (hkey : ∀ row, key (f row) = key row) : Table key where
  rows := T.rows.map f
  keys_nodup := by
    rw [List.map_map, show key ∘ f = key from funext hkey]
    exact T.keys_nodup

@[simp] theorem rows_update {T : Table key} {f : ρ → ρ} {hkey : ∀ row, key (f row) = key row} :
    (T.update f hkey).rows = T.rows.map f := rfl

theorem mem_delete {T : Table key} {picks : ρ → Bool} {row : ρ} :
    row ∈ (T.delete picks).rows ↔ row ∈ T.rows ∧ picks row = false := by
  simp [delete, List.mem_filter]

/-- A key determines its row. -/
theorem row_inj {T : Table key} {row row' : ρ} (hrow : row ∈ T.rows) (hrow' : row' ∈ T.rows)
    (hkey : key row = key row') : row = row' :=
  List.inj_on_of_nodup_map T.keys_nodup hrow hrow' hkey

variable [DecidableEq κ]

/-- The row with this key. -/
def find (T : Table key) (k : κ) : Option ρ := T.rows.find? fun row => decide (key row = k)

theorem find_eq_some {T : Table key} {k : κ} {row : ρ} :
    T.find k = some row ↔ row ∈ T.rows ∧ key row = k := by
  constructor
  · intro h
    have hkey := List.find?_some h
    exact ⟨List.mem_of_find?_eq_some h, by simpa using hkey⟩
  · rintro ⟨hrow, hkey⟩
    cases hfind : T.find k with
    | none =>
      have hnone := List.find?_eq_none.mp hfind row hrow
      simp [hkey] at hnone
    | some row' =>
      have hkey' := List.find?_some hfind
      rw [row_inj (List.mem_of_find?_eq_some hfind) hrow
        (by rw [hkey]; simpa using hkey')]

theorem find_eq_none {T : Table key} {k : κ} : T.find k = none ↔ ∀ row ∈ T.rows, key row ≠ k := by
  simp [find, List.find?_eq_none]

/-- Rewriting the rows under the keys they have rewrites what is found. -/
theorem find_of_rows_eq_map {ρ' : Type} {key' : ρ' → κ} {T : Table key} {U : Table key'} {f : ρ → ρ'}
    (hrows : U.rows = T.rows.map f) (hkey : ∀ row, key' (f row) = key row) (k : κ) :
    U.find k = (T.find k).map f := by
  unfold find
  rw [hrows, List.find?_map]
  congr 2
  funext row
  rw [Function.comp_apply, hkey]

@[simp] theorem find_empty (k : κ) : (empty : Table key).find k = none := rfl

/-- One more row, under a key that is free. -/
def insertNew (T : Table key) (row : ρ) (hfree : T.find (key row) = none) : Table key where
  rows := T.rows ++ [row]
  keys_nodup := by
    rw [List.map_append, List.nodup_append]
    refine ⟨T.keys_nodup, List.nodup_singleton _, ?_⟩
    intro k hk k' hk'
    obtain ⟨row', hrow', rfl⟩ := List.mem_map.mp hk
    obtain rfl : k' = key row := by simpa using hk'
    exact find_eq_none.mp hfree row' hrow'

theorem mem_insertNew {T : Table key} {row row' : ρ} {hfree : T.find (key row) = none} :
    row' ∈ (T.insertNew row hfree).rows ↔ row' ∈ T.rows ∨ row' = row := by
  simp [insertNew]

theorem find_insertNew {T : Table key} {row : ρ} {hfree : T.find (key row) = none} {k : κ} :
    (T.insertNew row hfree).find k = if key row = k then some row else T.find k := by
  by_cases hk : key row = k
  · rw [if_pos hk, find_eq_some]
    exact ⟨mem_insertNew.mpr (Or.inr rfl), hk⟩
  · rw [if_neg hk]
    show (T.rows ++ [row]).find? _ = _
    rw [List.find?_append]
    simp [find, hk]

theorem find_insertNew_ne_none {T : Table key} {row : ρ} {hfree : T.find (key row) = none} {k : κ}
    (h : T.find k ≠ none) : (T.insertNew row hfree).find k ≠ none := by
  rw [find_insertNew]
  split
  · simp
  · exact h

/-- What held of every row and holds of the new one holds of every row. -/
theorem forall_mem_insertNew {T : Table key} {row : ρ} {hfree : T.find (key row) = none}
    {P : ρ → Prop} (h : ∀ row' ∈ T.rows, P row') (hrow : P row) :
    ∀ row' ∈ (T.insertNew row hfree).rows, P row' := by
  intro row' hrow'
  rcases mem_insertNew.mp hrow' with hold | rfl
  · exact h row' hold
  · exact hrow

theorem find_delete {T : Table key} {picks : ρ → Bool} {k : κ} :
    (T.delete picks).find k = (T.find k).filter fun row => !picks row := by
  cases hfind : T.find k with
  | none =>
    rw [find_eq_none] at hfind
    rw [Option.filter_none, find_eq_none]
    exact fun row hrow => hfind row (mem_delete.mp hrow).1
  | some row =>
    obtain ⟨hrow, hkey⟩ := find_eq_some.mp hfind
    by_cases hpick : picks row = true
    · -- the only row with this key is gone
      rw [Option.filter_some, if_neg (by simp [hpick]), find_eq_none]
      intro row' hrow' hkey'
      obtain ⟨hmem, hkept⟩ := mem_delete.mp hrow'
      rw [row_inj hmem hrow (hkey'.trans hkey.symm), hpick] at hkept
      cases hkept
    · have hkept : picks row = false := by simpa using hpick
      rw [Option.filter_some, if_pos (by simp [hkept]), find_eq_some]
      exact ⟨mem_delete.mpr ⟨hrow, hkept⟩, hkey⟩

/-- Deleting by key takes one key away. -/
theorem find_delete_key {T : Table key} {k k' : κ} :
    (T.delete fun row => decide (key row = k)).find k' = if k' = k then none else T.find k' := by
  rw [find_delete]
  cases hfind : T.find k' with
  | none => simp
  | some row =>
    obtain ⟨_, rfl⟩ := find_eq_some.mp hfind
    by_cases hk : key row = k
    · simp [hk]
    · simp [hk]

theorem find_delete_key_ne_none {T : Table key} {k k' : κ} (hne : k' ≠ k) (h : T.find k' ≠ none) :
    (T.delete fun row => decide (key row = k)).find k' ≠ none := by
  rw [find_delete_key, if_neg hne]
  exact h

-- ---------------------------------------------------------------------------
-- Rows that are there already are passed over
-- ---------------------------------------------------------------------------

/-- `INSERT ... ON CONFLICT DO NOTHING` of one row. -/
def insertAbsent (T : Table key) (row : ρ) : Table key :=
  if hfree : T.find (key row) = none then T.insertNew row hfree else T

/-- `INSERT ... ON CONFLICT DO NOTHING` of rows, one after the other. -/
def insertAll (T : Table key) (rows : List ρ) : Table key := rows.foldl insertAbsent T

@[simp] theorem insertAll_nil (T : Table key) : T.insertAll [] = T := rfl

@[simp] theorem insertAll_cons (T : Table key) (row : ρ) (rows : List ρ) :
    T.insertAll (row :: rows) = (T.insertAbsent row).insertAll rows := rfl

theorem insertAll_append (T : Table key) (rows more : List ρ) :
    T.insertAll (rows ++ more) = (T.insertAll rows).insertAll more :=
  List.foldl_append

theorem find_insertAbsent {T : Table key} {row : ρ} {k : κ} :
    (T.insertAbsent row).find k = (T.find k).or (if key row = k then some row else none) := by
  unfold insertAbsent
  split
  · rename_i hfree
    rw [find_insertNew]
    by_cases hk : key row = k
    · rw [if_pos hk, if_pos hk, ← hk, hfree, Option.none_or]
    · rw [if_neg hk, if_neg hk, Option.or_none]
  · rename_i hthere
    by_cases hk : key row = k
    · obtain ⟨row', hrow'⟩ := Option.ne_none_iff_exists'.mp hthere
      rw [if_pos hk, ← hk, hrow', Option.some_or]
    · rw [if_neg hk, Option.or_none]

/-- Of the rows of one key the first counts, and one that was there before them all. -/
theorem find_insertAll {T : Table key} {rows : List ρ} {k : κ} :
    (T.insertAll rows).find k = (T.find k).or (rows.find? fun row => decide (key row = k)) := by
  induction rows generalizing T with
  | nil => rw [insertAll_nil, List.find?_nil, Option.or_none]
  | cons row rows ih =>
    rw [insertAll_cons, ih, find_insertAbsent, Option.or_assoc, List.find?_cons]
    by_cases hk : key row = k
    · simp [hk]
    · simp [hk]

theorem rows_insertAbsent {T : Table key} {row : ρ} :
    (T.insertAbsent row).rows = T.rows ++ if T.find (key row) = none then [row] else [] := by
  unfold insertAbsent
  split
  · rfl
  · rw [List.append_nil]

/-- New rows come after the old ones, no more of them than were offered. -/
theorem rows_insertAll (T : Table key) (rows : List ρ) :
    ∃ added, (T.insertAll rows).rows = T.rows ++ added ∧ added.Sublist rows := by
  induction rows generalizing T with
  | nil => exact ⟨[], (List.append_nil _).symm, List.Sublist.refl _⟩
  | cons row rows ih =>
    obtain ⟨added, hrows, hadded⟩ := ih (T.insertAbsent row)
    rw [rows_insertAbsent, List.append_assoc] at hrows
    refine ⟨_, hrows, ?_⟩
    by_cases hfree : T.find (key row) = none
    · rw [if_pos hfree]
      exact hadded.cons_cons row
    · rw [if_neg hfree]
      exact hadded.cons row

/-- Rows whose keys are all there change nothing. -/
theorem insertAll_present {T : Table key} {rows : List ρ}
    (h : ∀ row ∈ rows, T.find (key row) ≠ none) : T.insertAll rows = T := by
  induction rows with
  | nil => rfl
  | cons row rows ih =>
    have hfirst : T.insertAbsent row = T := dif_neg (h row List.mem_cons_self)
    rw [insertAll_cons, hfirst]
    exact ih fun row' hrow' => h row' (List.mem_cons_of_mem _ hrow')

/-- What was offered is there. -/
theorem find_insertAll_ne_none {T : Table key} {rows : List ρ} {row : ρ} (hrow : row ∈ rows) :
    (T.insertAll rows).find (key row) ≠ none := by
  rw [find_insertAll]
  intro hnone
  have hoffered := (Option.or_eq_none_iff.mp hnone).2
  exact absurd (List.find?_eq_none.mp hoffered row hrow) (by simp)

/-- Rows are offered to no effect after a list that begins with them. -/
theorem insertAll_front {T : Table key} {done rows : List ρ} (h : done <+: rows) :
    (T.insertAll rows).insertAll done = T.insertAll rows :=
  insertAll_present fun _ hrow => find_insertAll_ne_none (h.subset hrow)

/-- Starting over after a part of the rows ends where they end without it. -/
theorem insertAll_resume {T : Table key} {done rows : List ρ} (h : done <+: rows) :
    (T.insertAll done).insertAll rows = T.insertAll rows := by
  obtain ⟨rest, rfl⟩ := h
  rw [insertAll_append, insertAll_front (List.prefix_refl done), ← insertAll_append]

/-- The rows after an insertion, told apart by their keys. -/
theorem mem_insertAll {T : Table key} {rows : List ρ} {row : ρ} :
    row ∈ (T.insertAll rows).rows ↔ row ∈ T.rows ∨
      T.find (key row) = none ∧ rows.find? (fun row' => decide (key row' = key row)) = some row := by
  have hfound : ∀ {U : Table key}, row ∈ U.rows ↔ U.find (key row) = some row := by
    intro U
    rw [find_eq_some]
    exact ⟨fun h => ⟨h, rfl⟩, And.left⟩
  rw [hfound, hfound, find_insertAll, Option.or_eq_some_iff]

end Table

end Foundation

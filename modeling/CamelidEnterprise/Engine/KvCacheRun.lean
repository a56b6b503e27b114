import Mathlib.Logic.Function.Basic
import CamelidEnterprise.Engine.KvCache

/-!
# Camelid Enterprise — the key/value cache as a map

What the flat buffers of the cache are for: a map from places, each a layer, a
position and a key/value head, to a key row and a value row. `CacheRows` is that
map, with zeros where nothing was stored, and `Refines` is what a cache has in
common with it.

Key results: `Refines.call`, one call on both, and `cache_refines_map`, a run of
calls.
-/

namespace CamelidEnterprise

open Foundation

/-- A layer, a position and a key/value head. -/
structure CachePlace where
  layerIdx : Nat
  position : Nat
  kvHead : Nat
deriving DecidableEq, Repr

/-- A call on a cache. -/
inductive CacheCall where
  | ensure (required : Nat)
  | store (place : CachePlace) (keyRow valueRow : List F32)
  | advance
deriving DecidableEq

/-- The effect of a call. -/
def CacheCall.run : CacheCall → Effect LlamaKvCache EngineError Unit
  | ensure required => LlamaKvCache.ensurePositionCapacity required
  | store place keyRow valueRow =>
    LlamaKvCache.storeKvHeadRow place.layerIdx place.position place.kvHead keyRow valueRow
  | advance => LlamaKvCache.advancePosition

/-- The cache after some calls; one that fails leaves what it had done. -/
def LlamaKvCache.afterCalls (kv : LlamaKvCache) (calls : List CacheCall) : LlamaKvCache :=
  calls.foldl (fun kv call => (call.run kv).2) kv

/-- The place is one of the cache's, at a position that it has room for. -/
structure CachePlace.InRange (place : CachePlace) (kv : LlamaKvCache) : Prop where
  layerIdx_lt : place.layerIdx < kv.plan.layerCount
  position_lt : place.position < kv.allocatedSequenceLength
  kvHead_lt : place.kvHead < kv.plan.kvHeadCount

/-- The arguments of a call are in range. -/
def CacheCall.InRange (kv : LlamaKvCache) : CacheCall → Prop
  | store place keyRow valueRow => place.InRange kv ∧ kv.Wide (keyRow, valueRow)
  | _ => True

/-- Every call of a run is in range when it is made. -/
def CallsInRange : LlamaKvCache → List CacheCall → Prop
  | _, [] => True
  | kv, call :: calls => call.InRange kv ∧ CallsInRange (call.run kv).2 calls

instance (place : CachePlace) (kv : LlamaKvCache) : Decidable (place.InRange kv) :=
  decidable_of_iff (place.layerIdx < kv.plan.layerCount ∧
      place.position < kv.allocatedSequenceLength ∧ place.kvHead < kv.plan.kvHeadCount)
    ⟨fun h => ⟨h.1, h.2.1, h.2.2⟩, fun h => ⟨h.layerIdx_lt, h.position_lt, h.kvHead_lt⟩⟩

instance (kv : LlamaKvCache) (row : List F32 × List F32) : Decidable (kv.Wide row) :=
  inferInstanceAs (Decidable (row.1.length = kv.plan.headDim ∧ row.2.length = kv.plan.headDim))

instance (kv : LlamaKvCache) : (call : CacheCall) → Decidable (call.InRange kv)
  | .ensure _ => .isTrue trivial
  | .store place keyRow valueRow =>
    inferInstanceAs (Decidable (place.InRange kv ∧ kv.Wide (keyRow, valueRow)))
  | .advance => .isTrue trivial

instance CallsInRange.decidable : (kv : LlamaKvCache) → (calls : List CacheCall) →
    Decidable (CallsInRange kv calls)
  | _, [] => .isTrue trivial
  | kv, call :: calls =>
    have := CallsInRange.decidable (call.run kv).2 calls
    inferInstanceAs (Decidable (call.InRange kv ∧ CallsInRange (call.run kv).2 calls))

-- ---------------------------------------------------------------------------
-- The map
-- ---------------------------------------------------------------------------

/-- The rows at every place. -/
abbrev CacheRows := CachePlace → List F32 × List F32

/-- Zeros everywhere. -/
def LlamaKvCachePlan.zeroRows (plan : LlamaKvCachePlan) : CacheRows :=
  fun _ => (List.replicate plan.headDim 0, List.replicate plan.headDim 0)

/-- A row as it is kept. -/
def roundedRows (rows : List F32 × List F32) : List F32 × List F32 :=
  (rows.1.map kvRound, rows.2.map kvRound)

/-- A store replaces the rows of its place. -/
def CacheRows.call (rows : CacheRows) : CacheCall → CacheRows
  | .store place keyRow valueRow => Function.update rows place (roundedRows (keyRow, valueRow))
  | _ => rows

/-- The rows a call stores at a place. -/
def CacheCall.storedAt (place : CachePlace) : CacheCall → Option (List F32 × List F32)
  | store place' keyRow valueRow => if place' = place then some (keyRow, valueRow) else none
  | _ => none

/-- The rows that were stored last at a place, rounded; zeros if none were. -/
def LlamaKvCachePlan.lastStored (plan : LlamaKvCachePlan) (calls : List CacheCall) : CacheRows :=
  fun place =>
    match calls.reverse.findSome? (CacheCall.storedAt place) with
    | some rows => roundedRows rows
    | none => plan.zeroRows place

/-- The map after a run holds what was stored last. -/
theorem foldl_call_eq_lastStored (plan : LlamaKvCachePlan) (calls : List CacheCall) :
    calls.foldl CacheRows.call plan.zeroRows = plan.lastStored calls := by
  induction calls using List.reverseRecOn with
  | nil => rfl
  | append_singleton calls call ih =>
    rw [List.foldl_append, List.foldl_cons, List.foldl_nil, ih]
    funext place
    unfold LlamaKvCachePlan.lastStored
    rw [List.reverse_append, List.reverse_singleton, List.singleton_append, List.findSome?_cons]
    unfold CacheRows.call CacheCall.storedAt
    rcases call with required | ⟨place', keyRow, valueRow⟩ | _
    · rfl
    · dsimp only
      by_cases hplace : place' = place
      · rw [if_pos hplace, ← hplace, Function.update_self]
      · rw [if_neg hplace, Function.update_of_ne (Ne.symm hplace)]
    · rfl

-- ---------------------------------------------------------------------------
-- One call
-- ---------------------------------------------------------------------------

namespace LlamaKvCache

/-- The rows at a place. -/
def rowsAt (kv : LlamaKvCache) (place : CachePlace) : Option (List F32 × List F32) :=
  kv.entry place.layerIdx place.position place.kvHead

/-- The cache holds the map at its places, and the map holds nothing elsewhere. -/
structure Refines (plan : LlamaKvCachePlan) (kv : LlamaKvCache) (rows : CacheRows) : Prop where
  plan_eq : kv.plan = plan
  buffered : kv.Buffered
  inside : ∀ place : CachePlace, place.InRange kv → kv.rowsAt place = some (rows place)
  outside : ∀ place : CachePlace, kv.allocatedSequenceLength ≤ place.position →
    rows place = plan.zeroRows place

variable {plan : LlamaKvCachePlan} {kv : LlamaKvCache} {rows : CacheRows}

theorem new_refines (h : new plan = .ok kv) : kv.Refines plan plan.zeroRows := by
  obtain ⟨rfl, hfits⟩ := new_fits h
  refine ⟨rfl, hfits.buffered, ?_, fun _ _ => rfl⟩
  intro place hplace
  exact absurd hplace.position_lt (Nat.not_lt_zero _)

/-- Growth shows zeros. -/
theorem rowsAt_grownTo_new (hbuffered : kv.Buffered) {target : Nat} {place : CachePlace}
    (hplace : place.InRange (kv.grownTo target))
    (hnew : kv.allocatedSequenceLength ≤ place.position) :
    (kv.grownTo target).rowsAt place = some (kv.plan.zeroRows place) := by
  have hend : kv.offset place.layerIdx place.position place.kvHead + kv.plan.headDim ≤
      target * kv.stride :=
    kv.offset_le hplace.layerIdx_lt hplace.position_lt hplace.kvHead_lt
  have hstart := kv.le_offset place.layerIdx place.kvHead hnew
  unfold rowsAt entry
  show (do
      let key ← Rows.slice (Rows.resize kv.keys (target * kv.stride) 0)
        (kv.offset place.layerIdx place.position place.kvHead) kv.plan.headDim
      let value ← Rows.slice (Rows.resize kv.values (target * kv.stride) 0)
        (kv.offset place.layerIdx place.position place.kvHead) kv.plan.headDim
      some (key, value)) = _
  rw [Rows.slice_resize_new _ (by rw [hbuffered.keys_length]; exact hstart) hend,
    Rows.slice_resize_new _ (by rw [hbuffered.values_length]; exact hstart) hend]
  rfl

/-- A growth that is decided on, on the cache and on the map. -/
theorem Refines.grownTo (h : kv.Refines plan rows) {target : Nat}
    (hle : kv.allocatedSequenceLength ≤ target) (hmax : target ≤ kv.plan.maxSequenceLength) :
    (kv.grownTo target).Refines plan rows where
  plan_eq := h.plan_eq
  buffered := Buffered.grownTo hmax
  inside := by
    intro place hplace
    by_cases hold : place.position < kv.allocatedSequenceLength
    · rw [← h.inside place ⟨hplace.layerIdx_lt, hold, hplace.kvHead_lt⟩]
      exact entry_grownTo h.buffered hle hplace.layerIdx_lt hold hplace.kvHead_lt
    · have hnew := Nat.le_of_not_lt hold
      rw [rowsAt_grownTo_new h.buffered hplace hnew, h.outside place hnew, h.plan_eq]
  outside := fun place hplace => h.outside place (Nat.le_trans hle hplace)

/-- A row that is stored, in the cache and in the map. -/
theorem Refines.stored (h : kv.Refines plan rows) {place : CachePlace} (hplace : place.InRange kv)
    {row : List F32 × List F32} (hwide : kv.Wide row) :
    (kv.stored place.layerIdx place.position place.kvHead row).Refines plan
      (Function.update rows place (roundedRows row)) where
  plan_eq := h.plan_eq
  buffered :=
    h.buffered.stored hplace.layerIdx_lt hplace.position_lt hplace.kvHead_lt hwide
  inside := by
    intro place' hplace'
    by_cases hsame : place' = place
    · rw [hsame, Function.update_self]
      exact entry_stored_self h.buffered hplace.layerIdx_lt hplace.position_lt hplace.kvHead_lt hwide
    · rw [Function.update_of_ne hsame, ← h.inside place' ⟨hplace'.layerIdx_lt,
        hplace'.position_lt, hplace'.kvHead_lt⟩]
      refine entry_stored_of_ne h.buffered hplace.layerIdx_lt hplace.position_lt hplace.kvHead_lt
        hwide hplace'.layerIdx_lt hplace'.kvHead_lt ?_
      intro heq
      obtain ⟨hlayer, heq⟩ := Prod.mk.inj heq
      obtain ⟨hposition, hhead⟩ := Prod.mk.inj heq
      exact hsame (by cases place; cases place'; simp_all)
  outside := by
    intro place' hout
    have hne : place' ≠ place := by
      rintro rfl
      have hin := hplace.position_lt
      have hout : kv.allocatedSequenceLength ≤ place'.position := hout
      omega
    rw [Function.update_of_ne hne]
    exact h.outside place' hout

/-- What a call for room leaves. -/
theorem ensure_cases (hbuffered : kv.Buffered) (required : Nat) :
    (∃ target, kv.allocatedSequenceLength ≤ target ∧ required ≤ target ∧
        target ≤ kv.plan.maxSequenceLength ∧
        ensurePositionCapacity required kv = (.ok (), kv.grownTo target)) ∨
      ((ensurePositionCapacity required kv).1 ≠ .ok () ∧
        (ensurePositionCapacity required kv).2 = kv) := by
  rw [ensurePositionCapacity_eq hbuffered]
  rcases hreserve : kv.reserve required with target | e | fault
  · obtain ⟨hrequired, hle, hmax⟩ := reserve_eq_ok hbuffered hreserve
    exact .inl ⟨target, hle, hrequired, hmax, rfl⟩
  · exact .inr ⟨by simp, rfl⟩
  · exact .inr ⟨by simp, rfl⟩

/-- One call in range, on the cache and on the map. -/
theorem Refines.call (h : kv.Refines plan rows) {call : CacheCall} (hcall : call.InRange kv) :
    (call.run kv).2.Refines plan (rows.call call) := by
  rcases call with required | ⟨place, keyRow, valueRow⟩ | _
  · show (ensurePositionCapacity required kv).2.Refines plan rows
    rcases ensure_cases h.buffered required with ⟨target, hle, -, hmax, hrun⟩ | ⟨-, hsame⟩
    · rw [hrun]
      exact h.grownTo hle hmax
    · rw [hsame]
      exact h
  · obtain ⟨hplace, hwide⟩ := hcall
    have hrun := storeKvHeadRow_eq h.buffered hplace.layerIdx_lt hplace.position_lt
      hplace.kvHead_lt hwide
    show (storeKvHeadRow place.layerIdx place.position place.kvHead keyRow valueRow kv).2.Refines plan
      (Function.update rows place (roundedRows (keyRow, valueRow)))
    rw [hrun]
    exact h.stored hplace hwide
  · exact ⟨h.plan_eq, ⟨h.buffered.keys_length, h.buffered.values_length, h.buffered.allocated_le⟩,
      fun place hplace => h.inside place ⟨hplace.layerIdx_lt, hplace.position_lt,
        hplace.kvHead_lt⟩, h.outside⟩

/-- A run of calls in range. -/
theorem Refines.calls (h : kv.Refines plan rows) {calls : List CacheCall}
    (hcalls : CallsInRange kv calls) :
    (kv.afterCalls calls).Refines plan (calls.foldl CacheRows.call rows) := by
  induction calls generalizing kv rows with
  | nil => exact h
  | cons call calls ih => exact ih (h.call hcalls.1) hcalls.2

/-- Two places do not share a slot. -/
theorem ranges_disjoint {place place' : CachePlace} (hplace : place.InRange kv)
    (hplace' : place'.InRange kv) (hne : place ≠ place') :
    kv.offset place.layerIdx place.position place.kvHead + kv.plan.headDim ≤
        kv.offset place'.layerIdx place'.position place'.kvHead ∨
      kv.offset place'.layerIdx place'.position place'.kvHead + kv.plan.headDim ≤
        kv.offset place.layerIdx place.position place.kvHead := by
  refine Rows.row_disjoint kv.plan.headDim ?_
  intro heq
  obtain ⟨houter, hhead⟩ := (Rows.place_inj hplace.kvHead_lt hplace'.kvHead_lt).mp heq
  obtain ⟨hposition, hlayer⟩ := (Rows.place_inj hplace.layerIdx_lt hplace'.layerIdx_lt).mp houter
  exact hne (by cases place; cases place'; simp_all)

/-- What a cache shows after some calls, and what the next call can do to it. -/
structure ActsAsMap (plan : LlamaKvCachePlan) (calls : List CacheCall) (kv : LlamaKvCache) : Prop where
  rows : ∀ place : CachePlace, place.InRange kv →
    kv.keyRow place.layerIdx place.position place.kvHead = .ok (plan.lastStored calls place).1 ∧
      kv.valueRow place.layerIdx place.position place.kvHead = .ok (plan.lastStored calls place).2
  disjoint : ∀ place place' : CachePlace, place.InRange kv → place'.InRange kv → place ≠ place' →
    kv.offset place.layerIdx place.position place.kvHead + plan.headDim ≤
        kv.offset place'.layerIdx place'.position place'.kvHead ∨
      kv.offset place'.layerIdx place'.position place'.kvHead + plan.headDim ≤
        kv.offset place.layerIdx place.position place.kvHead
  bounded : kv.allocatedSequenceLength ≤ plan.maxSequenceLength
  stores : ∀ place keyRow valueRow, (CacheCall.store place keyRow valueRow).InRange kv →
    ((CacheCall.store place keyRow valueRow).run kv).1 = .ok ()
  failed : ∀ required, (ensurePositionCapacity required kv).1 ≠ .ok () →
    (ensurePositionCapacity required kv).2 = kv
  grown : ∀ required, (ensurePositionCapacity required kv).1 = .ok () →
    required ≤ (ensurePositionCapacity required kv).2.allocatedSequenceLength ∧
      (ensurePositionCapacity required kv).2.allocatedSequenceLength ≤ plan.maxSequenceLength ∧
      ∀ place : CachePlace, place.InRange kv →
        place.InRange (ensurePositionCapacity required kv).2 ∧
          (ensurePositionCapacity required kv).2.rowsAt place = kv.rowsAt place

/-- **The cache is a map.** After any run of calls in range on a new cache, a place
that there is room for holds the rows stored last for it, rounded, or zeros; no two
places share a slot; and a call for room keeps every row and the bound on positions,
or fails and changes nothing. -/
theorem cache_refines_map {kv₀ : LlamaKvCache} (hnew : new plan = .ok kv₀)
    {calls : List CacheCall} (hcalls : CallsInRange kv₀ calls) :
    (kv₀.afterCalls calls).ActsAsMap plan calls := by
  have hrefines := (new_refines hnew).calls hcalls
  rw [foldl_call_eq_lastStored] at hrefines
  have hplan := hrefines.plan_eq
  have hbuffered := hrefines.buffered
  refine ⟨?_, ?_, ?_, ?_, ?_, ?_⟩
  · intro place hplace
    exact entry_eq_some.mp (hrefines.inside place hplace)
  · intro place place' hplace hplace' hne
    rw [← hplan]
    exact ranges_disjoint hplace hplace' hne
  · rw [← hplan]
    exact hbuffered.allocated_le
  · rintro place keyRow valueRow ⟨hplace, hwide⟩
    exact congrArg Prod.fst (storeKvHeadRow_eq hbuffered hplace.layerIdx_lt hplace.position_lt
      hplace.kvHead_lt hwide)
  · intro required hfailed
    rcases ensure_cases hbuffered required with ⟨target, -, -, -, hrun⟩ | ⟨-, hsame⟩
    · rw [hrun] at hfailed
      exact absurd rfl hfailed
    · exact hsame
  · intro required hok
    rcases ensure_cases hbuffered required with ⟨target, hle, hrequired, hmax, hrun⟩ | ⟨hfailed, -⟩
    · rw [hrun, ← hplan]
      refine ⟨hrequired, hmax, ?_⟩
      intro place hplace
      refine ⟨⟨hplace.layerIdx_lt, Nat.lt_of_lt_of_le hplace.position_lt hle, hplace.kvHead_lt⟩, ?_⟩
      exact entry_grownTo hbuffered hle hplace.layerIdx_lt hplace.position_lt hplace.kvHead_lt
    · exact absurd hok hfailed

/-- The rows of one element of a place, stored twice with growth between. -/
def smallCalls : List CacheCall :=
  [.ensure 1, .store ⟨0, 0, 1⟩ [1] [2], .ensure 257, .advance, .store ⟨0, 0, 1⟩ [3] [4]]

theorem cache_refines_map_small :
    (LlamaKvCache.mk ⟨300, 1, 2, 1⟩ [] [] 0 0 |>.afterCalls smallCalls).ActsAsMap ⟨300, 1, 2, 1⟩
        smallCalls ∧
      LlamaKvCachePlan.lastStored ⟨300, 1, 2, 1⟩ smallCalls ⟨0, 0, 1⟩ = ([3], [4]) :=
  ⟨cache_refines_map rfl (by decide +kernel), by decide +kernel⟩

end LlamaKvCache

end CamelidEnterprise

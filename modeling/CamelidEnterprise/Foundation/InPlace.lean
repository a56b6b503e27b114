import Mathlib.Data.List.Nodup
import CamelidEnterprise.Foundation.Loops

/-!
# Pairs updated in place

A loop that takes two elements of a list at a time and puts back what it makes of them. Each
turn names the two indices it reads and writes. Where no index is named twice, every element
that is written is written once, from what stood there before the loop (`updates_ok`); and a
loop whose indices are renamed is the loop on the list in the new order (`updates_gather`).
-/

namespace Foundation

namespace Outcome

variable {ε α β σ : Type}

/-- A computation whose result a loop of at least one turn uses can be run in every turn. -/
theorem bind_foldlM (x : Outcome ε α) (f : α → σ → β → Outcome ε σ) {ys : List β} (hys : ys ≠ [])
    (s : σ) : (x >>= fun a => ys.foldlM (f a) s) = ys.foldlM (fun s y => x >>= fun a => f a s y) s := by
  obtain ⟨y, ys, rfl⟩ := List.exists_cons_of_ne_nil hys
  rcases x with a | e | k
  · rfl
  · rfl
  · rfl

/-- A loop over loops is a loop over their turns. -/
theorem foldlM_flatMap (f : α → List β) (g : σ → β → Outcome ε σ) (xs : List α) (s : σ) :
    (xs.flatMap f).foldlM g s = xs.foldlM (fun s x => (f x).foldlM g s) s := by
  induction xs generalizing s with
  | nil => rfl
  | cons x xs ih =>
    rw [List.flatMap_cons, List.foldlM_append, List.foldlM_cons]
    exact congrArg _ (funext ih)

end Outcome

namespace InPlace

variable {ε α τ : Type}

/-- Two elements, replaced by what `f` makes of them; an index past the end is a panic. -/
def updatePair (f : α → α → α × α) (dims : ℕ × ℕ) (xs : List α) : Outcome ε (List α) := do
  let x ← Outcome.orPanic xs[dims.1]?
  let y ← Outcome.orPanic xs[dims.2]?
  .ok ((xs.set dims.1 (f x y).1).set dims.2 (f x y).2)

theorem updatePair_eq_ok {f : α → α → α × α} {dims : ℕ × ℕ} {xs ys : List α} :
    (updatePair f dims xs : Outcome ε (List α)) = .ok ys ↔
      ∃ x y, xs[dims.1]? = some x ∧ xs[dims.2]? = some y ∧
        ys = (xs.set dims.1 (f x y).1).set dims.2 (f x y).2 := by
  unfold updatePair
  simp only [Outcome.bind_eq_ok, Outcome.orPanic_eq_ok, Outcome.ok.injEq]
  constructor
  · rintro ⟨x, hx, y, hy, rfl⟩
    exact ⟨x, y, hx, hy, rfl⟩
  · rintro ⟨x, y, hx, hy, rfl⟩
    exact ⟨x, hx, y, hy, rfl⟩

/-- The elements of a pair after its update, and any other element. -/
theorem getElem?_updatePair {a b : ℕ} {xs : List α} {x y : α} (hne : a ≠ b)
    (ha : xs[a]? = some x) (hb : xs[b]? = some y) (u v : α) :
    ((xs.set a u).set b v)[a]? = some u ∧ ((xs.set a u).set b v)[b]? = some v ∧
      ∀ i, i ≠ a → i ≠ b → ((xs.set a u).set b v)[i]? = xs[i]? := by
  have ha' := (List.getElem?_eq_some_iff.mp ha).1
  have hb' := (List.getElem?_eq_some_iff.mp hb).1
  refine ⟨?_, ?_, fun i hia hib => ?_⟩
  · rw [List.getElem?_set_ne hne.symm, List.getElem?_set_self ha']
  · rw [List.getElem?_set_self (by rw [List.length_set]; exact hb')]
  · rw [List.getElem?_set_ne hib.symm, List.getElem?_set_ne hia.symm]

-- ---------------------------------------------------------------------------
-- A loop of updates
-- ---------------------------------------------------------------------------

variable (dims : τ → ℕ × ℕ) (op : τ → Outcome ε (α → α → α × α))

/-- A turn: what to make of the pair, and the update. -/
def update (xs : List α) (t : τ) : Outcome ε (List α) := do
  let f ← op t
  updatePair f (dims t) xs

/-- The indices the turns read and write, in their order. -/
def touched (turns : List τ) : List ℕ := turns.flatMap fun t => [(dims t).1, (dims t).2]

/-- A pair of the list `xs`, and what stands at its indices in `ys`. -/
def Turned (xs ys : List α) (t : τ) : Prop :=
  ∃ f x y, op t = .ok f ∧ xs[(dims t).1]? = some x ∧ xs[(dims t).2]? = some y ∧
    ys[(dims t).1]? = some (f x y).1 ∧ ys[(dims t).2]? = some (f x y).2

variable {dims op}

theorem update_returns {xs : List α} {t : τ} {f : α → α → α × α} (hop : op t = .ok f)
    (hfst : (dims t).1 < xs.length) (hsnd : (dims t).2 < xs.length) :
    ∃ ys, update dims op xs t = .ok ys ∧ ys.length = xs.length := by
  obtain ⟨x, hx⟩ : ∃ x, xs[(dims t).1]? = some x := ⟨_, List.getElem?_eq_getElem hfst⟩
  obtain ⟨y, hy⟩ : ∃ y, xs[(dims t).2]? = some y := ⟨_, List.getElem?_eq_getElem hsnd⟩
  refine ⟨(xs.set (dims t).1 (f x y).1).set (dims t).2 (f x y).2, ?_, by simp⟩
  unfold update
  rw [hop, Outcome.ok_bind, updatePair_eq_ok]
  exact ⟨x, y, hx, hy, rfl⟩

/-- The loop returns where every turn has its operation and its indices. -/
theorem updates_returns {turns : List τ} {xs : List α} (hop : ∀ t ∈ turns, ∃ f, op t = .ok f)
    (hbound : ∀ i ∈ touched dims turns, i < xs.length) :
    ∃ ys, turns.foldlM (update dims op) xs = .ok ys := by
  induction turns generalizing xs with
  | nil => exact ⟨xs, rfl⟩
  | cons t turns ih =>
    obtain ⟨f, hf⟩ := hop t List.mem_cons_self
    have hfst : (dims t).1 < xs.length := hbound _ (by simp [touched])
    have hsnd : (dims t).2 < xs.length := hbound _ (by simp [touched])
    obtain ⟨xs', hxs', hlen⟩ := update_returns hf hfst hsnd
    rw [List.foldlM_cons, hxs', Outcome.ok_bind]
    refine ih (fun t' ht' => hop t' (List.mem_cons_of_mem _ ht')) fun i hi => ?_
    rw [hlen]
    exact hbound i (by
      unfold touched at hi ⊢
      rw [List.flatMap_cons]
      exact List.mem_append_right _ hi)

/-- Where no index is named twice, each element is written at most once, and from what stood
there before the loop. -/
theorem updates_ok {turns : List τ} {xs ys : List α} (hnodup : (touched dims turns).Nodup)
    (h : turns.foldlM (update dims op) xs = .ok ys) :
    ys.length = xs.length ∧ (∀ i ∉ touched dims turns, ys[i]? = xs[i]?) ∧
      ∀ t ∈ turns, Turned dims op xs ys t := by
  induction turns generalizing xs with
  | nil =>
    obtain rfl := Outcome.ok.inj h
    exact ⟨rfl, fun _ _ => rfl, fun _ h => absurd h (by simp)⟩
  | cons t turns ih =>
    rw [List.foldlM_cons, Outcome.bind_eq_ok] at h
    obtain ⟨xs', hstep, h⟩ := h
    unfold update at hstep
    obtain ⟨f, hf, hstep⟩ := Outcome.bind_eq_ok.mp hstep
    obtain ⟨x, y, hx, hy, rfl⟩ := updatePair_eq_ok.mp hstep
    have htouched : touched dims (t :: turns) =
        [(dims t).1, (dims t).2] ++ touched dims turns := rfl
    rw [htouched, List.nodup_append] at hnodup
    obtain ⟨hpair, hrest, hdisjoint⟩ := hnodup
    have hne : (dims t).1 ≠ (dims t).2 := by simpa using hpair
    have hfst : (dims t).1 ∉ touched dims turns := fun hmem =>
      hdisjoint _ (by simp) _ hmem rfl
    have hsnd : (dims t).2 ∉ touched dims turns := fun hmem =>
      hdisjoint _ (by simp) _ hmem rfl
    obtain ⟨hlen, hkept, hturned⟩ := ih hrest h
    obtain ⟨hat, hat', hother⟩ :=
      getElem?_updatePair hne hx hy (f x y).1 (f x y).2
    refine ⟨by rw [hlen]; simp, fun i hi => ?_, fun t' ht' => ?_⟩
    · rw [htouched, List.mem_append, not_or] at hi
      obtain ⟨hhead, htail⟩ := hi
      simp only [List.mem_cons, List.not_mem_nil, or_false, not_or] at hhead
      rw [hkept i htail, hother i hhead.1 hhead.2]
    · rcases List.mem_cons.mp ht' with rfl | ht'
      · exact ⟨f, x, y, hf, hx, hy, (hkept _ hfst).trans hat, (hkept _ hsnd).trans hat'⟩
      · obtain ⟨g, u, v, hg, hu, hv, hout⟩ := hturned t' ht'
        -- a later pair is not the one of this turn
        have hlater : ∀ i ∈ [(dims t').1, (dims t').2], i ≠ (dims t).1 ∧ i ≠ (dims t).2 := by
          intro i hi
          have hmem : i ∈ touched dims turns := List.mem_flatMap.mpr ⟨t', ht', hi⟩
          exact ⟨fun h => hdisjoint _ (by simp) i hmem h.symm,
            fun h => hdisjoint _ (by simp) i hmem h.symm⟩
        obtain ⟨hne₁, hne₂⟩ := hlater (dims t').1 (by simp)
        obtain ⟨hne₃, hne₄⟩ := hlater (dims t').2 (by simp)
        exact ⟨g, u, v, hg, (hother _ hne₁ hne₂).symm.trans hu,
          (hother _ hne₃ hne₄).symm.trans hv, hout⟩

/-- Turns that are told apart by each of their indices touch no index twice. -/
theorem touched_nodup {turns : List τ} (hturns : turns.Nodup)
    (hpair : ∀ t ∈ turns, (dims t).1 ≠ (dims t).2) (turnOf : ℕ → τ)
    (hfst : ∀ t ∈ turns, turnOf (dims t).1 = t) (hsnd : ∀ t ∈ turns, turnOf (dims t).2 = t) :
    (touched dims turns).Nodup := by
  have hturnOf : ∀ t ∈ turns, ∀ i ∈ [(dims t).1, (dims t).2], turnOf i = t := by
    intro t ht i hi
    simp only [List.mem_cons, List.not_mem_nil, or_false] at hi
    rcases hi with rfl | rfl
    · exact hfst t ht
    · exact hsnd t ht
  refine List.nodup_flatMap.mpr ⟨fun t ht => by simpa using hpair t ht, ?_⟩
  refine hturns.imp_of_mem fun {t t'} ht ht' hne => ?_
  rw [Function.onFun_apply, List.disjoint_left]
  intro i hi hi'
  exact hne ((hturnOf t ht i hi).symm.trans (hturnOf t' ht' i hi'))

-- ---------------------------------------------------------------------------
-- Renamed indices
-- ---------------------------------------------------------------------------

/-- The list whose element at `i` is the one of `xs` at `σ i`. -/
def gather (σ : ℕ → ℕ) (xs : List α) : List α := List.ofFn fun i : Fin xs.length =>
  xs[σ i]?.getD xs[i]

@[simp] theorem length_gather (σ : ℕ → ℕ) (xs : List α) : (gather σ xs).length = xs.length := by
  simp [gather]

theorem getElem?_gather {σ : ℕ → ℕ} {xs : List α} {i : ℕ} (hi : i < xs.length)
    (hσ : σ i < xs.length) : (gather σ xs)[i]? = xs[σ i]? := by
  unfold gather
  rw [List.getElem?_eq_getElem (by simpa using hi), List.getElem_ofFn,
    List.getElem?_eq_getElem hσ, Option.getD_some]

theorem gather_gather {σ σ' : ℕ → ℕ} {xs : List α} (hσ : ∀ i < xs.length, σ i < xs.length)
    (hσ' : ∀ i < xs.length, σ' i < xs.length) (hinv : ∀ i < xs.length, σ (σ' i) = i) :
    gather σ' (gather σ xs) = xs := by
  refine List.ext_getElem? fun i => ?_
  rcases Nat.lt_or_ge i xs.length with hi | hi
  · rw [getElem?_gather (by simpa using hi) (by simpa using hσ' i hi),
      getElem?_gather (hσ' i hi) (hσ _ (hσ' i hi)), hinv i hi]
  · rw [List.getElem?_eq_none (by simpa using hi), List.getElem?_eq_none hi]

/-- A store after a renaming is the store at the renamed index before it. -/
theorem gather_set {σ : ℕ → ℕ} {xs : List α} (hσ : ∀ i < xs.length, σ i < xs.length)
    (hinj : ∀ i < xs.length, ∀ j < xs.length, σ i = σ j → i = j) {a : ℕ} (ha : a < xs.length)
    (v : α) : gather σ (xs.set (σ a) v) = (gather σ xs).set a v := by
  refine List.ext_getElem? fun i => ?_
  rcases Nat.lt_or_ge i xs.length with hi | hi
  · rw [getElem?_gather (by simpa using hi) (by simpa using hσ i hi)]
    by_cases hia : i = a
    · subst hia
      rw [List.getElem?_set_self (hσ i hi), List.getElem?_set_self (by simpa using hi)]
    · rw [List.getElem?_set_ne fun h => hia (hinj a ha i hi h).symm,
        List.getElem?_set_ne (Ne.symm hia), getElem?_gather hi (hσ i hi)]
  · rw [List.getElem?_eq_none (by simpa using hi), List.getElem?_eq_none (by simpa using hi)]

section Renamed

variable {σ : ℕ → ℕ} {n : ℕ} (hσ : ∀ i < n, σ i < n)
  (hinj : ∀ i < n, ∀ j < n, σ i = σ j → i = j)

include hσ hinj

theorem updatePair_gather {f : α → α → α × α} {a b : ℕ} {xs : List α} (hlen : xs.length = n)
    (ha : a < n) (hb : b < n) :
    (updatePair f (a, b) (gather σ xs) : Outcome ε (List α)) =
      (updatePair f (σ a, σ b) xs).map (gather σ) := by
  subst hlen
  unfold updatePair
  dsimp only
  rw [getElem?_gather ha (hσ a ha), getElem?_gather hb (hσ b hb),
    List.getElem?_eq_getElem (hσ a ha), List.getElem?_eq_getElem (hσ b hb), Outcome.orPanic_some,
    Outcome.orPanic_some, Outcome.ok_bind, Outcome.ok_bind, Outcome.ok_bind, Outcome.ok_bind,
    Outcome.map_ok, gather_set (by simpa using hσ) (by simpa using hinj) (by simpa using hb),
    gather_set hσ hinj ha]

/-- A loop on the renamed list is the loop at the renamed indices, renamed. -/
theorem updates_gather {dims' : τ → ℕ × ℕ} {turns : List τ} {xs : List α} (hlen : xs.length = n)
    (hdims : ∀ t ∈ turns, (dims t).1 < n ∧ (dims t).2 < n ∧
      dims' t = (σ (dims t).1, σ (dims t).2)) :
    turns.foldlM (update dims op) (gather σ xs) =
      (turns.foldlM (update dims' op) xs).map (gather σ) := by
  induction turns generalizing xs with
  | nil => rfl
  | cons t turns ih =>
    obtain ⟨hfst, hsnd, hrenamed⟩ := hdims t List.mem_cons_self
    have hstep : update dims op (gather σ xs) t = (update dims' op xs t).map (gather σ) := by
      unfold update
      rcases op t with f | e | k
      · rw [Outcome.ok_bind, Outcome.ok_bind, hrenamed]
        exact updatePair_gather hσ hinj hlen hfst hsnd
      · rfl
      · rfl
    rw [List.foldlM_cons, List.foldlM_cons, hstep]
    rcases hup : update dims' op xs t with ys | e | k
    · have hys : ys.length = n := by
        unfold update at hup
        obtain ⟨f, -, hup⟩ := Outcome.bind_eq_ok.mp hup
        obtain ⟨x, y, -, -, rfl⟩ := updatePair_eq_ok.mp hup
        simpa using hlen
      rw [Outcome.map_ok, Outcome.ok_bind, Outcome.ok_bind]
      exact ih hys fun t' ht' => hdims t' (List.mem_cons_of_mem _ ht')
    · rfl
    · rfl

end Renamed

end InPlace

end Foundation

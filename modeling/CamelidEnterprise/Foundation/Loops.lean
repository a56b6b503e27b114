import Mathlib.Data.List.Forall2
import CamelidEnterprise.Foundation.Effect

/-!
# Loops over lists

A loop that builds a list is `List.mapM`, and one that carries a value on is
`List.foldlM`; a loop that only changes a state is `Effect.each`, and one that also
carries a value on is `Effect.fold`. The rules say when such a loop returns, and
what it takes for it to have no fault.
-/

namespace Foundation

namespace Outcome

variable {ε α β γ : Type}

/-- A value returned, passed through a function. -/
def map (f : α → β) : Outcome ε α → Outcome ε β
  | .ok a => .ok (f a)
  | .err e => .err e
  | .fault k => .fault k

@[simp] theorem map_ok (f : α → β) (a : α) : (Outcome.ok a : Outcome ε α).map f = .ok (f a) := rfl

@[simp] theorem map_err (f : α → β) (e : ε) : (Outcome.err e : Outcome ε α).map f = .err e := rfl

@[simp] theorem map_fault (f : α → β) (k : Fault) :
    (Outcome.fault k : Outcome ε α).map f = .fault k := rfl

theorem map_eq_ok {f : α → β} {x : Outcome ε α} {b : β} :
    x.map f = .ok b ↔ ∃ a, x = .ok a ∧ f a = b := by
  rcases x with a | e | k
  · simp
  · simp
  · simp

theorem mapM_cons (f : α → Outcome ε β) (x : α) (xs : List α) :
    (x :: xs).mapM f = (do
      let y ← f x
      let ys ← xs.mapM f
      .ok (y :: ys)) := List.mapM_cons

theorem mapM_append (f : α → Outcome ε β) (xs xs' : List α) :
    (xs ++ xs').mapM f = (do
      let ys ← xs.mapM f
      let ys' ← xs'.mapM f
      .ok (ys ++ ys')) := List.mapM_append

/-- A loop over a list returned: each step did. -/
theorem mapM_eq_ok {f : α → Outcome ε β} {xs : List α} {ys : List β} :
    xs.mapM f = .ok ys ↔ List.Forall₂ (fun x y => f x = .ok y) xs ys := by
  induction xs generalizing ys with
  | nil =>
    rw [List.mapM_nil, List.forall₂_nil_left_iff]
    show Outcome.ok [] = Outcome.ok ys ↔ ys = []
    rw [Outcome.ok.injEq, eq_comm]
  | cons x xs ih =>
    rw [mapM_cons, bind_eq_ok]
    constructor
    · rintro ⟨y, hy, h⟩
      obtain ⟨ys', hys, h⟩ := bind_eq_ok.mp h
      obtain rfl := Outcome.ok.inj h
      exact .cons hy (ih.mp hys)
    · intro h
      obtain ⟨y, ys', hy, hys, rfl⟩ := List.forall₂_cons_left_iff.mp h
      refine ⟨y, hy, ?_⟩
      rw [ih.mpr hys, ok_bind]

theorem length_of_mapM {f : α → Outcome ε β} {xs : List α} {ys : List β}
    (h : xs.mapM f = .ok ys) : ys.length = xs.length :=
  (mapM_eq_ok.mp h).length_eq.symm

theorem mem_of_mapM {f : α → Outcome ε β} {xs : List α} {ys : List β} (h : xs.mapM f = .ok ys)
    {x : α} (hx : x ∈ xs) : ∃ y, f x = .ok y := by
  induction xs generalizing ys with
  | nil => exact absurd hx (by simp)
  | cons x' xs ih =>
    rw [mapM_cons] at h
    obtain ⟨y, hy, h⟩ := bind_eq_ok.mp h
    obtain ⟨ys', hys, -⟩ := bind_eq_ok.mp h
    rcases List.mem_cons.mp hx with rfl | hx
    · exact ⟨y, hy⟩
    · exact ih hys hx

/-- What a loop over a list returned at an index is what its step returned there. -/
theorem getElem?_of_mapM {f : α → Outcome ε β} {xs : List α} {ys : List β}
    (h : xs.mapM f = .ok ys) {i : Nat} {y : β} (hy : ys[i]? = some y) :
    ∃ x, xs[i]? = some x ∧ f x = .ok y := by
  have hall := List.forall₂_iff_get.mp (mapM_eq_ok.mp h)
  obtain ⟨hlt, hget⟩ := List.getElem?_eq_some_iff.mp hy
  have hlt' : i < xs.length := by rw [hall.1]; exact hlt
  have hstep := hall.2 i hlt' hlt
  refine ⟨xs[i], List.getElem?_eq_getElem hlt', ?_⟩
  rw [List.get_eq_getElem, List.get_eq_getElem, hget] at hstep
  exact hstep

theorem mapM_congr {f g : α → Outcome ε β} {xs : List α} (h : ∀ x ∈ xs, f x = g x) :
    xs.mapM f = xs.mapM g := by
  induction xs with
  | nil => rfl
  | cons x xs ih =>
    rw [mapM_cons, mapM_cons, h x List.mem_cons_self,
      ih fun y hy => h y (List.mem_cons_of_mem _ hy)]

theorem mapM_map (f : β → Outcome ε γ) (g : α → β) (xs : List α) :
    (xs.map g).mapM f = xs.mapM fun x => f (g x) := by
  induction xs with
  | nil => rfl
  | cons x xs ih => rw [List.map_cons, mapM_cons, mapM_cons, ih]

/-- A loop whose steps all return is a `map`. -/
theorem mapM_ok (f : α → β) (xs : List α) :
    xs.mapM (fun x => (.ok (f x) : Outcome ε β)) = .ok (xs.map f) := by
  induction xs with
  | nil => rfl
  | cons x xs ih => rw [mapM_cons, ih, ok_bind, ok_bind, List.map_cons]

/-- Reading a list by its indices is reading its elements. -/
theorem mapM_range_getElem? (f : Option α → Outcome ε β) (xs : List α) :
    ((List.range xs.length).mapM fun i => f xs[i]?) = xs.mapM fun x => f (some x) := by
  induction xs generalizing f with
  | nil => rfl
  | cons x xs ih =>
    have htail : ((List.range xs.length).map Nat.succ).mapM (fun i => f (x :: xs)[i]?) =
        xs.mapM fun y => f (some y) := by
      rw [mapM_map, ← ih]
      rfl
    rw [List.length_cons, List.range_succ_eq_map, mapM_cons, mapM_cons, htail]
    rfl

/-- A check and what follows it passed: both did. -/
theorem check_eq_ok {x : Outcome ε Unit} {f : Unit → Outcome ε β} {b : β} :
    (x >>= f) = .ok b ↔ x = .ok () ∧ f () = .ok b := by
  rw [bind_eq_ok]
  exact ⟨fun ⟨⟨⟩, hx, hf⟩ => ⟨hx, hf⟩, fun ⟨hx, hf⟩ => ⟨(), hx, hf⟩⟩

/-- `for x in xs { f(x)?; }` -/
def each (f : α → Outcome ε Unit) : List α → Outcome ε Unit
  | [] => .ok ()
  | x :: xs => do
    f x
    each f xs

theorem each_eq_ok {f : α → Outcome ε Unit} {xs : List α} :
    each f xs = .ok () ↔ ∀ x ∈ xs, f x = .ok () := by
  induction xs with
  | nil => simp [each]
  | cons x xs ih =>
    rw [each, check_eq_ok, List.forall_mem_cons, ← ih]

theorem NoFault.mapM {f : α → Outcome ε β} {xs : List α} (h : ∀ x ∈ xs, NoFault (f x)) :
    NoFault (xs.mapM f) := by
  induction xs with
  | nil => exact noFault_ok _
  | cons x xs ih =>
    rw [mapM_cons]
    refine (h x List.mem_cons_self).bind fun y _ => ?_
    exact (ih fun z hz => h z (List.mem_cons_of_mem _ hz)).bind fun ys _ => noFault_ok _

theorem Ends.mapM {f : α → Outcome ε β} {allowed : ε → Prop} {post : β → Prop} {xs : List α}
    (h : ∀ x ∈ xs, (f x).Ends allowed post) :
    (xs.mapM f).Ends allowed fun ys => ys.length = xs.length ∧ ∀ y ∈ ys, post y := by
  induction xs with
  | nil => exact ⟨rfl, fun y hy => absurd hy List.not_mem_nil⟩
  | cons x xs ih =>
    rw [mapM_cons]
    refine (h x List.mem_cons_self).bind fun y hy => ?_
    refine (ih fun z hz => h z (List.mem_cons_of_mem _ hz)).bind fun ys hys => ?_
    exact ⟨by rw [List.length_cons, List.length_cons, hys.1], List.forall_mem_cons.mpr ⟨hy, hys.2⟩⟩

/-- A loop whose steps all return. -/
theorem ends_mapM_ok {f : α → Outcome ε β} {allowed : ε → Prop} {xs : List α}
    (h : ∀ x ∈ xs, ∃ y, f x = .ok y) : (xs.mapM f).Ends allowed (·.length = xs.length) := by
  have hall : (xs.mapM f).Ends allowed fun ys => ys.length = xs.length ∧ ∀ y ∈ ys, True := by
    refine .mapM fun x hx => ?_
    obtain ⟨y, hy⟩ := h x hx
    exact .of_eq_ok hy trivial
  exact hall.mono fun ys hys => hys.1

end Outcome

namespace Effect

variable {σ ε α β : Type}

/-- `for x in xs { .. }` -/
def each (f : α → Effect σ ε Unit) : List α → Effect σ ε Unit
  | [] => pure ()
  | x :: xs => do
    f x
    each f xs

/-- `for x in xs { acc = .. }` -/
def fold (f : β → α → Effect σ ε β) : β → List α → Effect σ ε β
  | acc, [] => pure acc
  | acc, x :: xs => do
    let acc ← f acc x
    fold f acc xs

/-- The state that a block reads first is the one it starts in. -/
theorem get_bind (f : σ → Effect σ ε β) (s : σ) : (get >>= f) s = f s s := rfl

/-- A computation that leaves a part of its state alone, whether it returns or not. -/
def Keeps {τ : Type} (part : σ → τ) (x : Effect σ ε α) : Prop := ∀ s, part (x s).2 = part s

section Keeps

variable {τ : Type} {part : σ → τ}

theorem keeps_lift (x : Outcome ε α) : Keeps part (lift x : Effect σ ε α) := fun _ => rfl

theorem keeps_pure (a : α) : Keeps part (pure a : Effect σ ε α) := fun _ => rfl

theorem keeps_modify {f : σ → σ} (h : ∀ s, part (f s) = part s) :
    Keeps part (modify f : Effect σ ε Unit) := h

theorem Keeps.bind {x : Effect σ ε α} {f : α → Effect σ ε β} (hx : Keeps part x)
    (hf : ∀ a, Keeps part (f a)) : Keeps part (x >>= f) := by
  intro s
  have hs := hx s
  rw [run_bind]
  rcases hrun : x s with ⟨a | e | k, t⟩
  · rw [hrun] at hs
    exact (hf a t).trans hs
  · rw [hrun] at hs
    exact hs
  · rw [hrun] at hs
    exact hs

theorem keeps_get {f : σ → Effect σ ε β} (hf : ∀ s, Keeps part (f s)) :
    Keeps part (get >>= f) := fun s => hf s s

theorem keeps_each {f : α → Effect σ ε Unit} (hf : ∀ x, Keeps part (f x)) (xs : List α) :
    Keeps part (each f xs) := by
  induction xs with
  | nil => exact keeps_pure ()
  | cons x xs ih => exact (hf x).bind fun _ => ih

theorem keeps_fold {f : β → α → Effect σ ε β} (hf : ∀ acc x, Keeps part (f acc x)) (acc : β)
    (xs : List α) : Keeps part (fold f acc xs) := by
  induction xs generalizing acc with
  | nil => exact keeps_pure acc
  | cons x xs ih => exact (hf acc x).bind fun acc' => ih acc'

end Keeps

end Effect

end Foundation

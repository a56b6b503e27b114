import CamelidEnterprise.Foundation.Outcome

/-!
# Effects that failures keep

Code that changes a state it holds by mutable reference and may stop with an error
at any point: what it changed before it stopped stays changed. `Effect` is such a
computation; unlike a transaction it has no rollback, so its result says what the
state is in every case.

* `first` and `second` run a computation on one half of a pair;
* `bind_eq_ok` takes a run that returned apart, `run_bind` any run;
* `Ends` says how a run from a state ends, with a rule for each way a run is put together.
-/

namespace Foundation

/-- A computation on a state that outlives its failures. -/
def Effect (σ ε α : Type) : Type := σ → Outcome ε α × σ

namespace Effect

variable {σ κ ε α β : Type}

/-- Sequencing: an error or a fault ends the run in the state it happened in. -/
@[inline] protected def bind (x : Effect σ ε α) (f : α → Effect σ ε β) : Effect σ ε β := fun s =>
  match x s with
  | (.ok a, s') => f a s'
  | (.err e, s') => (.err e, s')
  | (.fault k, s') => (.fault k, s')

instance : Monad (Effect σ ε) where
  pure a := fun s => (.ok a, s)
  bind := Effect.bind

/-- A computation that reads and changes nothing. -/
def lift (x : Outcome ε α) : Effect σ ε α := fun s => (x, s)

/-- `return Err(error)` -/
def throw (error : ε) : Effect σ ε α := lift (.err error)

def get : Effect σ ε σ := fun s => (.ok s, s)

def modify (f : σ → σ) : Effect σ ε Unit := fun s => (.ok (), f s)

/-- On the first half of a pair. -/
def first (x : Effect σ ε α) : Effect (σ × κ) ε α := fun s =>
  let (result, s') := x s.1
  (result, s', s.2)

/-- On the second half of a pair. -/
def second (x : Effect κ ε α) : Effect (σ × κ) ε α := fun s =>
  let (result, s') := x s.2
  (result, s.1, s')

-- ---------------------------------------------------------------------------
-- Runs
-- ---------------------------------------------------------------------------

@[simp] theorem run_pure (a : α) (s : σ) : (pure a : Effect σ ε α) s = (.ok a, s) := rfl

@[simp] theorem run_lift (x : Outcome ε α) (s : σ) : (lift x : Effect σ ε α) s = (x, s) := rfl

@[simp] theorem run_throw (e : ε) (s : σ) : (throw e : Effect σ ε α) s = (.err e, s) := rfl

theorem run_bind (x : Effect σ ε α) (f : α → Effect σ ε β) (s : σ) :
    (x >>= f) s =
      match x s with
      | (.ok a, s') => f a s'
      | (.err e, s') => (.err e, s')
      | (.fault k, s') => (.fault k, s') := rfl

theorem bind_ok {x : Effect σ ε α} {s s' : σ} {a : α} (h : x s = (.ok a, s'))
    (f : α → Effect σ ε β) : (x >>= f) s = f a s' := by
  rw [run_bind, h]

theorem bind_err {x : Effect σ ε α} {s : σ} {e : ε} (h : (x s).1 = .err e)
    {f : α → Effect σ ε β} : ((x >>= f) s).1 = .err e := by
  rw [run_bind]
  rcases hrun : x s with ⟨a | e' | k, t⟩
  · rw [hrun] at h
    cases h
  · rw [hrun] at h
    obtain rfl := Outcome.err.inj h
    rfl
  · rw [hrun] at h
    cases h

theorem bind_eq_ok {x : Effect σ ε α} {f : α → Effect σ ε β} {s s' : σ} {b : β} :
    (x >>= f) s = (.ok b, s') ↔ ∃ a t, x s = (.ok a, t) ∧ f a t = (.ok b, s') := by
  rw [run_bind]
  rcases x s with ⟨a | e | k, t⟩
  · constructor
    · intro h
      exact ⟨a, t, rfl, h⟩
    · rintro ⟨a', t', h, hf⟩
      obtain ⟨ha, rfl⟩ := Prod.mk.inj h
      obtain rfl := Outcome.ok.inj ha
      exact hf
  · simp
  · simp

theorem first_apply (x : Effect σ ε α) (s : σ) (c : κ) :
    (first x : Effect (σ × κ) ε α) (s, c) = ((x s).1, (x s).2, c) := rfl

theorem second_apply (x : Effect κ ε α) (s : σ) (c : κ) :
    (second x : Effect (σ × κ) ε α) (s, c) = ((x c).1, s, (x c).2) := rfl

/-! ## How a run ends -/

/-- How the effect ends from a state: as an outcome does, with a postcondition on the value and
the state it leaves. -/
def Ends (x : Effect σ ε α) (s : σ) (allowed : ε → Prop) (post : α → σ → Prop) : Prop :=
  (x s).1.Ends allowed fun a => post a (x s).2

variable {allowed : ε → Prop} {x : Effect σ ε α} {s : σ} {post : α → σ → Prop}

/-- The rule for a block. -/
theorem Ends.bind {f : α → Effect σ ε β} {post' : β → σ → Prop} (hx : x.Ends s allowed post)
    (hf : ∀ a s', post a s' → (f a).Ends s' allowed post') : (x >>= f).Ends s allowed post' := by
  unfold Ends at hx ⊢
  rw [run_bind]
  rcases hrun : x s with ⟨a | e | k, s'⟩
  · rw [hrun] at hx
    exact hf a s' hx
  · rw [hrun] at hx
    exact hx
  · rw [hrun] at hx
    exact hx

theorem Ends.mono {post' : α → σ → Prop} (h : x.Ends s allowed post)
    (himp : ∀ a s', post a s' → post' a s') : x.Ends s allowed post' :=
  Outcome.Ends.mono h fun a => himp a _

theorem ends_pure {a : α} (h : post a s) : (pure a : Effect σ ε α).Ends s allowed post := h

theorem ends_lift {y : Outcome ε α} (h : y.Ends allowed fun a => post a s) :
    (lift y : Effect σ ε α).Ends s allowed post := h

theorem Ends.first {c : κ} (h : x.Ends s allowed post) :
    (first x : Effect (σ × κ) ε α).Ends (s, c) allowed fun a t => post a t.1 ∧ t.2 = c :=
  Outcome.Ends.mono h fun _ hpost => ⟨hpost, rfl⟩

theorem Ends.second {c : κ} (h : x.Ends s allowed post) :
    (second x : Effect (κ × σ) ε α).Ends (c, s) allowed fun a t => post a t.2 ∧ t.1 = c :=
  Outcome.Ends.mono h fun _ hpost => ⟨hpost, rfl⟩

end Effect

end Foundation

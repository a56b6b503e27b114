import CamelidEnterprise.Foundation.Outcome

/-!
# Transactions

A `Connection` to a store sees what is stored until it takes the write lock; from
then on it works on a copy, which `commit` puts in place of the store. Code on a
connection reads surroundings nobody controls (a clock, a source of randomness, a
disk that fails) and may stop with an error or a panic at any of its steps; the
session it leaves then is what was reached, and of an open transaction nothing is
stored.

* `Txn` is such a computation, a monad; `bind_eq_ok` takes a run that returned
  apart, step by step;
* `Keeps` — a computation stores nothing — and `AllOrNothing` — it returns or
  stores nothing — with the rules of sequence that prove the second of a
  transaction;
* `Settles` — a postcondition for the runs that return, and an excuse for those
  that do not, with the rules of sequence and consequence.
-/

namespace Foundation

-- ---------------------------------------------------------------------------
-- Connections
-- ---------------------------------------------------------------------------

/-- A connection to a store: what is stored, and what the connection sees, which
differ only while it holds the write lock. -/
structure Connection (δ : Type) where
  stored : δ
  view : δ
  locked : Bool
  view_eq : locked = false → view = stored

namespace Connection

variable {δ : Type}

/-- A new connection. -/
def opened (content : δ) : Connection δ := ⟨content, content, false, fun _ => rfl⟩

/-- What a statement writes is stored at once, unless a transaction is open. -/
def write (c : Connection δ) (content : δ) : Connection δ where
  stored := bif c.locked then c.stored else content
  view := content
  locked := c.locked
  view_eq h := by rw [h]; rfl

/-- `BEGIN IMMEDIATE` -/
def lock (c : Connection δ) : Connection δ := ⟨c.stored, c.view, true, fun h => absurd h (by simp)⟩

/-- `COMMIT` -/
def commit (c : Connection δ) : Connection δ := ⟨c.view, c.view, false, fun _ => rfl⟩

/-- A statement that changes nothing stores nothing. -/
@[simp] theorem stored_write_view (c : Connection δ) : (c.write c.view).stored = c.stored := by
  show (bif c.locked then c.stored else c.view) = c.stored
  cases hlocked : c.locked with
  | true => rfl
  | false => exact c.view_eq hlocked

/-- What is written under the lock is not stored. -/
theorem stored_write_locked {c : Connection δ} (h : c.locked = true) (content : δ) :
    (c.write content).stored = c.stored := by
  show (bif c.locked then c.stored else content) = c.stored
  rw [h, cond_true]

end Connection

-- ---------------------------------------------------------------------------
-- Computations
-- ---------------------------------------------------------------------------

/-- A computation in given surroundings: what comes of it, and the session it leaves. -/
def Txn (ω σ ε α : Type) : Type := ω → σ → Outcome ε α × σ

namespace Txn

variable {ω σ ε α β : Type}

/-- Sequencing: an error or a panic ends it where it is. -/
@[inline] protected def bind (x : Txn ω σ ε α) (f : α → Txn ω σ ε β) : Txn ω σ ε β :=
  fun w s =>
    match x w s with
    | (.ok a, t) => f a w t
    | (.err e, t) => (.err e, t)
    | (.fault k, t) => (.fault k, t)

instance : Monad (Txn ω σ ε) where
  pure a := fun _ s => (.ok a, s)
  bind := Txn.bind

/-- `return Err(error)` -/
def throw (error : ε) : Txn ω σ ε α := fun _ s => (.err error, s)

/-- `Option::ok_or`, and `?` on the result. -/
def okOr (error : ε) : Option α → Txn ω σ ε α
  | some a => pure a
  | none => throw error

/-- A value of the surroundings, or a panic when there is none. -/
def expect (read : ω → σ → Option (α × σ)) : Txn ω σ ε α := fun w s =>
  match read w s with
  | some (a, t) => (.ok a, t)
  | none => (.fault .panic, s)

-- ---------------------------------------------------------------------------
-- Runs that return
-- ---------------------------------------------------------------------------

@[simp] theorem pure_eq_ok {w : ω} {s s' : σ} {a b : α} :
    (pure a : Txn ω σ ε α) w s = (.ok b, s') ↔ a = b ∧ s = s' := by
  show (Outcome.ok a, s) = (.ok b, s') ↔ _
  simp

theorem bind_run (x : Txn ω σ ε α) (f : α → Txn ω σ ε β) (w : ω) (s : σ) :
    (x >>= f) w s =
      match x w s with
      | (.ok a, t) => f a w t
      | (.err e, t) => (.err e, t)
      | (.fault k, t) => (.fault k, t) := rfl

theorem bind_eq_ok {x : Txn ω σ ε α} {f : α → Txn ω σ ε β} {w : ω} {s s' : σ} {b : β} :
    (x >>= f) w s = (.ok b, s') ↔ ∃ a t, x w s = (.ok a, t) ∧ f a w t = (.ok b, s') := by
  rw [bind_run]
  rcases x w s with ⟨a | e | k, t⟩
  · simp
  · simp
  · simp

@[simp] theorem throw_eq_ok {e : ε} {w : ω} {s s' : σ} {b : α} :
    (throw e : Txn ω σ ε α) w s = (.ok b, s') ↔ False := by
  show (Outcome.err e, s) = (.ok b, s') ↔ _
  simp

@[simp] theorem okOr_eq_ok {e : ε} {o : Option α} {w : ω} {s s' : σ} {a : α} :
    (okOr e o : Txn ω σ ε α) w s = (.ok a, s') ↔ o = some a ∧ s = s' := by
  cases o with
  | none => simp [okOr]
  | some a' => simp [okOr]

@[simp] theorem expect_eq_ok {read : ω → σ → Option (α × σ)} {w : ω} {s s' : σ} {a : α} :
    (expect read : Txn ω σ ε α) w s = (.ok a, s') ↔ read w s = some (a, s') := by
  unfold expect
  rcases read w s with _ | ⟨a', t⟩
  · simp
  · simp

-- ---------------------------------------------------------------------------
-- What is stored
-- ---------------------------------------------------------------------------

section Stored

variable {δ : Type} (connection : σ → Connection δ)

/-- From a session whose lock is as `pre` says, nothing is stored, and one that is
returned from has its lock as `post` says. -/
def Keeps (pre post : Bool → Prop) (x : Txn ω σ ε α) : Prop :=
  ∀ w s, pre (connection s).locked → (connection (x w s).2).stored = (connection s).stored ∧
    ∀ a, (x w s).1 = .ok a → post (connection (x w s).2).locked

/-- It returns, or nothing is stored. -/
def AllOrNothing (pre : Bool → Prop) (x : Txn ω σ ε α) : Prop :=
  ∀ w s, pre (connection s).locked → (∀ a, (x w s).1 ≠ .ok a) →
    (connection (x w s).2).stored = (connection s).stored

/-- The lock is held. -/
abbrev Locked : Bool → Prop := (· = true)

/-- The lock is held or not. -/
abbrev Anywhere : Bool → Prop := fun _ => True

variable {connection} {pre mid post : Bool → Prop}

theorem Keeps.pure (a : α) : Keeps connection pre pre (Pure.pure a : Txn ω σ ε α) :=
  fun _ _ hpre => ⟨rfl, fun _ _ => hpre⟩

theorem Keeps.throw (e : ε) : Keeps connection pre post (Txn.throw e : Txn ω σ ε α) :=
  fun _ _ _ => ⟨rfl, fun _ h => by cases h⟩

theorem Keeps.okOr (e : ε) (o : Option α) :
    Keeps connection pre pre (Txn.okOr e o : Txn ω σ ε α) := by
  cases o with
  | none => exact .throw e
  | some a => exact .pure a

/-- A draw that leaves the connection alone. -/
theorem Keeps.expect {read : ω → σ → Option (α × σ)}
    (h : ∀ w s a t, read w s = some (a, t) → connection t = connection s) :
    Keeps connection pre pre (Txn.expect read : Txn ω σ ε α) := by
  intro w s hpre
  unfold Txn.expect
  rcases hread : read w s with _ | ⟨a, t⟩
  · exact ⟨rfl, fun _ h => by cases h⟩
  · dsimp only
    rw [h w s a t hread]
    exact ⟨rfl, fun _ _ => hpre⟩

theorem Keeps.bind {x : Txn ω σ ε α} {f : α → Txn ω σ ε β} (hx : Keeps connection pre mid x)
    (hf : ∀ a, Keeps connection mid post (f a)) : Keeps connection pre post (x >>= f) := by
  intro w s hpre
  obtain ⟨hstored, hlock⟩ := hx w s hpre
  rw [bind_run]
  rcases hrun : x w s with ⟨a | e | k, t⟩
  · rw [hrun] at hstored hlock
    obtain ⟨hstored', hlock'⟩ := hf a w t (hlock a rfl)
    exact ⟨hstored'.trans hstored, hlock'⟩
  · rw [hrun] at hstored
    exact ⟨hstored, fun _ h => by cases h⟩
  · rw [hrun] at hstored
    exact ⟨hstored, fun _ h => by cases h⟩

theorem AllOrNothing.throw (e : ε) : AllOrNothing connection pre (Txn.throw e : Txn ω σ ε α) :=
  fun _ _ _ _ => rfl

theorem Keeps.allOrNothing {x : Txn ω σ ε α} (h : Keeps connection pre post x) :
    AllOrNothing connection pre x := fun w s hpre _ => (h w s hpre).1

/-- Code that stores nothing, in front of a transaction. -/
theorem Keeps.andThen {x : Txn ω σ ε α} {f : α → Txn ω σ ε β} (hx : Keeps connection pre mid x)
    (hf : ∀ a, AllOrNothing connection mid (f a)) : AllOrNothing connection pre (x >>= f) := by
  intro w s hpre hresult
  obtain ⟨hstored, hlock⟩ := hx w s hpre
  rw [bind_run] at hresult ⊢
  rcases hrun : x w s with ⟨a | e | k, t⟩
  · rw [hrun] at hstored hlock hresult
    exact (hf a w t (hlock a rfl) hresult).trans hstored
  · rw [hrun] at hstored
    exact hstored
  · rw [hrun] at hstored
    exact hstored

/-- Nothing can go wrong after it. -/
theorem AllOrNothing.returns {x : Txn ω σ ε α} (hx : AllOrNothing connection pre x) (f : α → β) :
    AllOrNothing connection pre (x >>= fun a => Pure.pure (f a)) := by
  intro w s hpre hresult
  have hstored := hx w s hpre
  rw [bind_run] at hresult ⊢
  rcases hrun : x w s with ⟨a | e | k, t⟩
  · rw [hrun] at hresult
    exact absurd rfl (hresult (f a))
  · rw [hrun] at hstored
    exact hstored fun _ h => by cases h
  · rw [hrun] at hstored
    exact hstored fun _ h => by cases h

end Stored

-- ---------------------------------------------------------------------------
-- Postconditions
-- ---------------------------------------------------------------------------

/-- From `s` on, the computation returns with `post`, or stops in a way that
`excuse` allows. -/
def Settles (excuse : ε ⊕ Fault → Prop) (x : Txn ω σ ε α) (w : ω) (s : σ) (post : α → σ → Prop) :
    Prop :=
  match x w s with
  | (.ok a, s') => post a s'
  | (.err e, _) => excuse (.inl e)
  | (.fault k, _) => excuse (.inr k)

namespace Settles

variable {excuse : ε ⊕ Fault → Prop} {w : ω} {s : σ}

theorem pure {a : α} {post : α → σ → Prop} (h : post a s) :
    Settles excuse (Pure.pure a : Txn ω σ ε α) w s post := h

/-- The rule of sequence: what the first leaves is what the second starts from. -/
theorem bind {x : Txn ω σ ε α} {f : α → Txn ω σ ε β} {mid : α → σ → Prop} {post : β → σ → Prop}
    (hx : Settles excuse x w s mid) (hf : ∀ a t, mid a t → Settles excuse (f a) w t post) :
    Settles excuse (x >>= f) w s post := by
  unfold Settles at hx ⊢
  rw [bind_run]
  rcases hfirst : x w s with ⟨a | e | k, t⟩
  · rw [hfirst] at hx
    exact hf a t hx
  · rw [hfirst] at hx
    exact hx
  · rw [hfirst] at hx
    exact hx

/-- The rule of consequence. -/
theorem mono {x : Txn ω σ ε α} {post post' : α → σ → Prop} (hx : Settles excuse x w s post)
    (hpost : ∀ a t, post a t → post' a t) : Settles excuse x w s post' := by
  unfold Settles at hx ⊢
  rcases hrun : x w s with ⟨a | e | k, t⟩
  · rw [hrun] at hx
    exact hpost a t hx
  · rw [hrun] at hx
    exact hx
  · rw [hrun] at hx
    exact hx

/-- The postcondition where it returned, and otherwise an excuse. -/
theorem result {x : Txn ω σ ε α} {post : α → σ → Prop} (hx : Settles excuse x w s post) :
    (∃ a, (x w s).1 = .ok a ∧ post a (x w s).2) ∨
      ∃ stop, (x w s).1.failure = some stop ∧ excuse stop := by
  unfold Settles at hx
  rcases hrun : x w s with ⟨a | e | k, t⟩
  · rw [hrun] at hx
    exact .inl ⟨a, rfl, hx⟩
  · rw [hrun] at hx
    exact .inr ⟨.inl e, rfl, hx⟩
  · rw [hrun] at hx
    exact .inr ⟨.inr k, rfl, hx⟩

end Settles

end Txn

end Foundation

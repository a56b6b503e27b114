import Mathlib.Tactic.Common

/-!
# Outcomes of fallible code

A function of a systems language ends in one of three ways: it returns a value,
it returns one of its own errors, or it does not return at all. `Outcome` keeps
the third way apart from the second, so that "never panics" and "never wraps"
are statements about a definition rather than conventions about it:

* `ok` and `err` are the two arms of a `Result`;
* `fault` is everything a caller cannot match on — a failed index or `expect`
  (`panic`), plain arithmetic that leaves its machine range (`overflow`), or a
  loop that outlived the fuel its embedding was given (`fuel`).

`bind_eq_ok` takes a successful run of a `do` block apart; `NoFault.bind`
composes the absence of faults the same way. `Gives` is a postcondition for runs that
may end in an error of their own but not in a fault, with a rule for each way a block
is put together; `Raises` bounds the errors a run may end in, whatever else it does, and
`Ends` says both at once.
-/

namespace Foundation

/-- The ways a computation can stop without returning. -/
inductive Fault
  | panic
  | overflow
  | fuel
deriving DecidableEq, Repr

/-- A value, an error of the function's own, or a fault. -/
inductive Outcome (ε α : Type) : Type
  | ok (value : α)
  | err (error : ε)
  | fault (kind : Fault)
deriving DecidableEq, Repr

namespace Outcome

variable {ε α β γ : Type}

/-- Sequencing: the first error or fault ends the run. -/
@[inline] protected def bind (x : Outcome ε α) (f : α → Outcome ε β) : Outcome ε β :=
  match x with
  | .ok a => f a
  | .err e => .err e
  | .fault k => .fault k

instance : Monad (Outcome ε) where
  pure := .ok
  bind := Outcome.bind

instance : LawfulMonad (Outcome ε) :=
  LawfulMonad.mk' _ (fun x => by cases x <;> rfl) (fun _ _ => rfl)
    (fun x _ _ => by cases x <;> rfl)

@[simp] theorem pure_def (a : α) : (pure a : Outcome ε α) = .ok a := rfl

@[simp] theorem ok_bind (a : α) (f : α → Outcome ε β) : (Outcome.ok a >>= f) = f a := rfl

@[simp] theorem err_bind (e : ε) (f : α → Outcome ε β) :
    ((Outcome.err e : Outcome ε α) >>= f) = .err e := rfl

@[simp] theorem fault_bind (k : Fault) (f : α → Outcome ε β) :
    ((Outcome.fault k : Outcome ε α) >>= f) = .fault k := rfl

/-- A `do` block returned: its first step did, and the rest did from there. -/
theorem bind_eq_ok {x : Outcome ε α} {f : α → Outcome ε β} {b : β} :
    (x >>= f) = .ok b ↔ ∃ a, x = .ok a ∧ f a = .ok b := by
  cases x with
  | ok a => simp
  | err e => simp
  | fault k => simp

/-- `Option::ok_or`: an absent value becomes the error `e`. -/
def okOr (e : ε) : Option α → Outcome ε α
  | some a => .ok a
  | none => .err e

@[simp] theorem okOr_some (e : ε) (a : α) : okOr e (some a) = .ok a := rfl

@[simp] theorem okOr_none (e : ε) : (okOr e none : Outcome ε α) = .err e := rfl

theorem okOr_eq_ok {e : ε} {o : Option α} {a : α} : okOr e o = .ok a ↔ o = some a := by
  cases o with
  | none => simp
  | some a' => simp

/-- `expect`, `unwrap` or an index: an absent value is a panic. -/
def orPanic : Option α → Outcome ε α
  | some a => .ok a
  | none => .fault .panic

@[simp] theorem orPanic_some (a : α) : (orPanic (some a) : Outcome ε α) = .ok a := rfl

theorem orPanic_eq_ok {o : Option α} {a : α} : (orPanic o : Outcome ε α) = .ok a ↔ o = some a := by
  cases o with
  | none => simp [orPanic]
  | some a' => simp [orPanic]

/-- What a computation that did not return stopped with. -/
def failure : Outcome ε α → Option (ε ⊕ Fault)
  | .ok _ => none
  | .err e => some (.inl e)
  | .fault k => some (.inr k)

@[simp] theorem failure_ok (a : α) : (.ok a : Outcome ε α).failure = none := rfl

@[simp] theorem failure_err (e : ε) : (.err e : Outcome ε α).failure = some (.inl e) := rfl

@[simp] theorem failure_fault (k : Fault) : (.fault k : Outcome ε α).failure = some (.inr k) := rfl

/-- A block fails with what its first step fails with, or with what the rest does. -/
theorem failure_bind {x : Outcome ε α} {f : α → Outcome ε β} {stop : ε ⊕ Fault} :
    (x >>= f).failure = some stop ↔
      x.failure = some stop ∨ ∃ a, x = .ok a ∧ (f a).failure = some stop := by
  cases x with
  | ok a => simp
  | err e => simp
  | fault k => simp

/-! ## Runs without faults -/

/-- The computation returned: with a value or with one of its own errors. -/
def NoFault (x : Outcome ε α) : Prop := ∀ k, x ≠ .fault k

@[simp] theorem noFault_ok (a : α) : NoFault (.ok a : Outcome ε α) := by
  intro k h
  cases h

@[simp] theorem noFault_err (e : ε) : NoFault (.err e : Outcome ε α) := by
  intro k h
  cases h

@[simp] theorem noFault_okOr (e : ε) (o : Option α) : NoFault (okOr e o) := by
  cases o with
  | none => exact noFault_err e
  | some a => exact noFault_ok a

/-- A block has no fault when its first step has none and, after any value that
step can return, neither has the rest. -/
theorem NoFault.bind {x : Outcome ε α} {f : α → Outcome ε β} (hx : NoFault x)
    (hf : ∀ a, x = .ok a → NoFault (f a)) : NoFault (x >>= f) := by
  cases x with
  | ok a => exact hf a rfl
  | err e => exact noFault_err e
  | fault k => exact absurd rfl (hx k)

/-! ## Postconditions -/

/-- The computation has no fault, and what it returns satisfies the postcondition. -/
def Gives (x : Outcome ε α) (post : α → Prop) : Prop :=
  match x with
  | .ok a => post a
  | .err _ => True
  | .fault _ => False

theorem gives_iff {x : Outcome ε α} {post : α → Prop} :
    x.Gives post ↔ NoFault x ∧ ∀ a, x = .ok a → post a := by
  cases x with
  | ok a =>
    refine ⟨fun h => ⟨noFault_ok a, ?_⟩, fun h => h.2 a rfl⟩
    intro b hb
    obtain rfl := ok.inj hb
    exact h
  | err e =>
    refine ⟨fun _ => ⟨noFault_err e, ?_⟩, fun _ => trivial⟩
    intro b hb
    cases hb
  | fault k => exact ⟨False.elim, fun h => h.1 k rfl⟩

/-- The rule for a block: the first step's postcondition is what the rest starts from. -/
theorem Gives.bind {x : Outcome ε α} {f : α → Outcome ε β} {post : α → Prop} {post' : β → Prop}
    (hx : x.Gives post) (hf : ∀ a, post a → (f a).Gives post') : (x >>= f).Gives post' := by
  cases x with
  | ok a => exact hf a hx
  | err e => trivial
  | fault k => exact hx.elim

theorem gives_okOr {e : ε} {o : Option α} {post : α → Prop} (h : ∀ a, o = some a → post a) :
    (okOr e o).Gives post := by
  cases o with
  | none => trivial
  | some a => exact h a rfl

/-! ## Errors a run may end in -/

/-- The computation ends in no error but these. -/
def Raises (x : Outcome ε α) (allowed : ε → Prop) : Prop := ∀ e, x = .err e → allowed e

variable {allowed : ε → Prop}

@[simp] theorem raises_ok (a : α) : (.ok a : Outcome ε α).Raises allowed := by
  intro e h
  cases h

@[simp] theorem raises_fault (k : Fault) : (.fault k : Outcome ε α).Raises allowed := by
  intro e h
  cases h

@[simp] theorem raises_orPanic (o : Option α) : (orPanic o : Outcome ε α).Raises allowed := by
  cases o with
  | none => exact raises_fault _
  | some a => exact raises_ok a

theorem raises_okOr {e : ε} (o : Option α) (h : allowed e) : (okOr e o).Raises allowed := by
  cases o with
  | none =>
    intro e' heq
    rwa [← err.inj heq]
  | some a => exact raises_ok a

/-- The rule for a block. -/
theorem Raises.bind {x : Outcome ε α} {f : α → Outcome ε β} (hx : x.Raises allowed)
    (hf : ∀ a, (f a).Raises allowed) : (x >>= f).Raises allowed := by
  cases x with
  | ok a => exact hf a
  | err e =>
    intro e' h
    exact hx e' (congrArg err (err.inj h))
  | fault k => exact raises_fault k

/-! ## How a run ends -/

/-- The computation has no fault, what it returns satisfies the postcondition, and it ends in no
error but these. -/
def Ends (x : Outcome ε α) (allowed : ε → Prop) (post : α → Prop) : Prop :=
  match x with
  | .ok a => post a
  | .err e => allowed e
  | .fault _ => False

variable {x : Outcome ε α} {f : α → Outcome ε β} {post : α → Prop} {post' : β → Prop}

theorem ends_iff : x.Ends allowed post ↔
    NoFault x ∧ x.Raises allowed ∧ ∀ a, x = .ok a → post a := by
  cases x with
  | ok a =>
    refine ⟨fun h => ⟨noFault_ok a, raises_ok a, ?_⟩, fun h => h.2.2 a rfl⟩
    intro b hb
    obtain rfl := ok.inj hb
    exact h
  | err e =>
    refine ⟨fun h => ⟨noFault_err e, ?_, ?_⟩, fun h => h.2.1 e rfl⟩
    · intro e' he
      obtain rfl := err.inj he
      exact h
    · intro b hb
      cases hb
  | fault k => exact ⟨False.elim, fun h => h.1 k rfl⟩

theorem Ends.noFault (h : x.Ends allowed post) : NoFault x := (ends_iff.mp h).1

theorem Ends.of_eq_ok {a : α} (h : x = .ok a) (hpost : post a) : x.Ends allowed post := by
  rw [h]
  exact hpost

/-- The rule for a block: the first step's postcondition is what the rest starts from. -/
theorem Ends.bind (hx : x.Ends allowed post) (hf : ∀ a, post a → (f a).Ends allowed post') :
    (x >>= f).Ends allowed post' := by
  cases x with
  | ok a => exact hf a hx
  | err e => exact hx
  | fault k => exact hx.elim

theorem Ends.mono {post'' : α → Prop} (h : x.Ends allowed post) (himp : ∀ a, post a → post'' a) :
    x.Ends allowed post'' := by
  cases x with
  | ok a => exact himp a h
  | err e => exact h
  | fault k => exact h

theorem ends_orPanic {o : Option α} {a : α} (h : o = some a) (hpost : post a) :
    (orPanic o : Outcome ε α).Ends allowed post := .of_eq_ok (orPanic_eq_ok.mpr h) hpost

end Outcome

end Foundation

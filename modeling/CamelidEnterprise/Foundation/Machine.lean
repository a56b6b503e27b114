import Mathlib.Data.List.Basic

/-!
# State machines and their runs

A machine is a set of states to start in and a step relation labelled by an
action and the result the action returned. A run is recorded as the history of
its steps, oldest first, each with the state before and after it, so that a
property of a run can speak about the order in which things happened.

* `Run.invariant` — what one step preserves holds at the end of every run;
* `Run.history_induction` — the same for a property that ties the state to the
  history it came from;
* `Run.split` — every step in a history was taken by a run of its own, which is
  how a fact about "the history so far" is applied in the middle of one;
* `Run.front`, `Run.through` — a history cut at a place, and behind a step.
-/

namespace Foundation

/-- One step of a run: what was done, what it returned, and the states around it. -/
structure Entry (σ α ρ : Type) where
  before : σ
  action : α
  result : ρ
  after : σ

/-- A labelled transition system. -/
structure Machine (σ α ρ : Type) where
  start : σ → Prop
  step : σ → α → ρ → σ → Prop

namespace Machine

variable {σ α ρ : Type} {M : Machine σ α ρ}

/-- `M.Run h s`: the machine came to `s` by the steps of `h`. -/
inductive Run (M : Machine σ α ρ) : List (Entry σ α ρ) → σ → Prop
  | nil {s : σ} (hstart : M.start s) : Run M [] s
  | snoc {h : List (Entry σ α ρ)} {s s' : σ} {a : α} {r : ρ} (run : Run M h s)
      (hstep : M.step s a r s') : Run M (h ++ [⟨s, a, r, s'⟩]) s'

/-- A state some run comes to. -/
def Reachable (M : Machine σ α ρ) (s : σ) : Prop := ∃ h, M.Run h s

/-- A property of history and state that holds at the start and that every step
extends holds of every run. -/
theorem Run.history_induction {P : List (Entry σ α ρ) → σ → Prop}
    (hstart : ∀ s, M.start s → P [] s)
    (hstep : ∀ h s a r s', M.Run h s → P h s → M.step s a r s' → P (h ++ [⟨s, a, r, s'⟩]) s')
    {h : List (Entry σ α ρ)} {s : σ} (run : M.Run h s) : P h s := by
  induction run with
  | nil hs => exact hstart _ hs
  | snoc run hs ih => exact hstep _ _ _ _ _ run ih hs

theorem Run.invariant {I : σ → Prop} (hstart : ∀ s, M.start s → I s)
    (hstep : ∀ s a r s', I s → M.step s a r s' → I s') {h : List (Entry σ α ρ)} {s : σ}
    (run : M.Run h s) : I s :=
  run.history_induction (fun s hs => hstart s hs) fun _ s a r s' _ hI hs => hstep s a r s' hI hs

/-- Cut a run in front of any of its steps: the part before is a run to the state
the step was taken in, and the step is one of the machine's. -/
theorem Run.split {h : List (Entry σ α ρ)} {s : σ} (run : M.Run h s) :
    ∀ {front back : List (Entry σ α ρ)} {e : Entry σ α ρ}, h = front ++ e :: back →
      M.Run front e.before ∧ M.step e.before e.action e.result e.after := by
  induction run with
  | nil hs =>
    intro front back e hcut
    exact absurd hcut.symm (by simp)
  | @snoc h s s' a r run hs ih =>
    intro front back e hcut
    rcases List.eq_nil_or_concat back with rfl | ⟨back, last, rfl⟩
    · -- the step is the last one
      obtain ⟨rfl, hlast⟩ := List.append_inj' hcut rfl
      obtain rfl := (List.cons.inj hlast).1
      exact ⟨run, hs⟩
    · -- it is one of the earlier ones
      rw [List.concat_eq_append, ← List.cons_append, ← List.append_assoc] at hcut
      exact ih (List.append_inj' hcut rfl).1

/-- The first part of a history is a history. -/
theorem Run.front {h : List (Entry σ α ρ)} {s : σ} (run : M.Run h s)
    {front back : List (Entry σ α ρ)} (hcut : h = front ++ back) : ∃ s', M.Run front s' := by
  rcases back with _ | ⟨e, back⟩
  · rw [List.append_nil] at hcut
    exact ⟨s, hcut ▸ run⟩
  · exact ⟨e.before, (run.split hcut).1⟩

/-- A run up to a step and through it. -/
theorem Run.through {h : List (Entry σ α ρ)} {s : σ} (run : M.Run h s)
    {front back : List (Entry σ α ρ)} {e : Entry σ α ρ} (hcut : h = front ++ e :: back) :
    M.Run (front ++ [e]) e.after := by
  obtain ⟨hfront, hstep⟩ := run.split hcut
  exact hfront.snoc hstep

theorem Run.step_of_mem {h : List (Entry σ α ρ)} {s : σ} (run : M.Run h s)
    {e : Entry σ α ρ} (he : e ∈ h) : M.step e.before e.action e.result e.after := by
  obtain ⟨front, back, hcut⟩ := List.append_of_mem he
  exact (run.split hcut).2

end Machine

-- ---------------------------------------------------------------------------
-- Machines of several parties
-- ---------------------------------------------------------------------------

/-- The parties of a machine stand in a list; one of them, and what replacing it does. -/
theorem set_split {α : Type} {l : List α} {i : Nat} {a : α} (h : l[i]? = some a) :
    ∃ front back, l = front ++ a :: back ∧ ∀ b, l.set i b = front ++ b :: back := by
  obtain ⟨hi, ha⟩ := List.getElem?_eq_some_iff.mp h
  refine ⟨l.take i, l.drop (i + 1), ?_, fun b => ?_⟩
  · rw [← ha, List.getElem_cons_drop, List.take_append_drop]
  · rw [List.set_eq_take_append_cons_drop, if_pos hi]

/-- One party goes on: what is counted of them all. -/
theorem countP_set {α : Type} {l : List α} {i : Nat} {a : α} (h : l[i]? = some a) (p : α → Bool)
    (b : α) :
    (l.set i b).countP p + (if p a = true then 1 else 0) =
      l.countP p + if p b = true then 1 else 0 := by
  obtain ⟨front, back, hsplit, hset⟩ := set_split h
  rw [hset, hsplit, List.countP_append, List.countP_append, List.countP_cons, List.countP_cons]
  omega

theorem forall_mem_set {α : Type} {l : List α} {P : α → Prop} (hall : ∀ a ∈ l, P a) (i : Nat) {b : α}
    (hb : P b) : ∀ a ∈ l.set i b, P a := by
  intro a ha
  rcases List.mem_or_eq_of_mem_set ha with h | rfl
  · exact hall a h
  · exact hb

end Foundation

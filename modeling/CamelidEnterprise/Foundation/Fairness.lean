import CamelidEnterprise.Foundation.Machine

/-!
# Infinite runs and weak fairness

What a machine does eventually is a property of its infinite runs, and of those
only the fair ones: a step that stays possible is taken at some point.

* `Execution` — an infinite run; `Execution.run` makes each of its prefixes a run,
  so what holds of every run holds all along an execution;
* `WeaklyFair` — a kind of step is not put off for ever;
* `eventually_of_variant` — a measure that no step raises and that steps of some kind
  lower runs out;
* `WeaklyFair.leadsTo` — the rule for one step: what can only be ended by a step of
  a fair kind is ended by one.
-/

namespace Foundation

namespace Machine

variable {σ α ρ : Type} {M : Machine σ α ρ}

/-- An infinite run. -/
structure Execution (M : Machine σ α ρ) where
  state : Nat → σ
  action : Nat → α
  result : Nat → ρ
  start : M.start (state 0)
  step : ∀ n, M.step (state n) (action n) (result n) (state (n + 1))

namespace Execution

variable (x : M.Execution)

/-- The step taken at a time. -/
def entry (n : Nat) : Entry σ α ρ := ⟨x.state n, x.action n, x.result n, x.state (n + 1)⟩

/-- The steps before a time. -/
def history (n : Nat) : List (Entry σ α ρ) := (List.range n).map x.entry

theorem history_succ (n : Nat) : x.history (n + 1) = x.history n ++ [x.entry n] := by
  unfold history
  rw [List.range_succ, List.map_append, List.map_singleton]

theorem run (n : Nat) : M.Run (x.history n) (x.state n) := by
  induction n with
  | zero => exact .nil x.start
  | succ n ih =>
    rw [history_succ]
    exact ih.snoc (x.step n)

/-- As long as `Q` has not come, `P` stays, no step raises the measure, and a step
of the kind, which lowers it, is taken sooner or later: so `Q` comes. -/
theorem eventually_of_variant {P Q : σ → Prop} {taken : α → Prop} {measure : σ → Nat}
    (hprogress : ∀ n, P (x.state n) → ∃ m, n ≤ m ∧ (Q (x.state m) ∨ taken (x.action m)))
    (hstep : ∀ s a r s', M.step s a r s' → P s → Q s ∨
      (P s' ∧ measure s' ≤ measure s ∧ (taken a → measure s' < measure s))) (n : Nat)
    (hn : P (x.state n)) : ∃ m, n ≤ m ∧ Q (x.state m) := by
  generalize hbound : measure (x.state n) = bound
  induction bound using Nat.strongRecOn generalizing n with
  | ind bound ih =>
    by_contra hnever
    have hnot : ∀ m, n ≤ m → ¬Q (x.state m) := fun m hm hQ => hnever ⟨m, hm, hQ⟩
    have hkept : ∀ k, P (x.state (n + k)) ∧ measure (x.state (n + k)) ≤ bound := by
      intro k
      induction k with
      | zero => exact ⟨hn, Nat.le_of_eq hbound⟩
      | succ k ihk =>
        rcases hstep _ _ _ _ (x.step (n + k)) ihk.1 with hQ | ⟨hP, hle, -⟩
        · exact absurd hQ (hnot (n + k) (by omega))
        · exact ⟨hP, Nat.le_trans hle ihk.2⟩
    obtain ⟨m, hm, hQ | htaken⟩ := hprogress n hn
    · exact hnot m hm hQ
    · have hbefore := hkept (m - n)
      rw [show n + (m - n) = m by omega] at hbefore
      rcases hstep _ _ _ _ (x.step m) hbefore.1 with hQ | ⟨hP, -, hlt⟩
      · exact hnot m hm hQ
      · obtain ⟨m', hm', hQ⟩ := ih _ (by have := hlt htaken; omega) (m + 1) hP rfl
        exact hnot m' (by omega) hQ

/-- A step of this kind is not put off for ever while it stays possible. -/
def WeaklyFair (enabled : σ → Prop) (taken : α → Prop) : Prop :=
  ∀ n, (∀ m, n ≤ m → enabled (x.state m)) → ∃ m, n ≤ m ∧ taken (x.action m)

variable {x}

/-- What is impossible again and again is never put off. -/
theorem WeaklyFair.of_disabled {enabled : σ → Prop} {taken : α → Prop}
    (hdisabled : ∀ n, ∃ m, n ≤ m ∧ ¬enabled (x.state m)) : x.WeaklyFair enabled taken := by
  intro n henabled
  obtain ⟨m, hm, hnot⟩ := hdisabled n
  exact absurd (henabled m hm) hnot

/-- What stays possible until a step of the kind is taken ends with such a step. -/
theorem WeaklyFair.leadsTo {enabled : σ → Prop} {taken : α → Prop}
    (hfair : x.WeaklyFair enabled taken) {n : Nat} (hn : enabled (x.state n))
    (hkept : ∀ m, n ≤ m → enabled (x.state m) → taken (x.action m) ∨ enabled (x.state (m + 1))) :
    ∃ m, n ≤ m ∧ enabled (x.state m) ∧ taken (x.action m) := by
  by_contra hnever
  have hstays : ∀ k, enabled (x.state (n + k)) := by
    intro k
    induction k with
    | zero => exact hn
    | succ k ih =>
      rcases hkept (n + k) (by omega) ih with htaken | hstill
      · exact absurd ⟨n + k, by omega, ih, htaken⟩ hnever
      · exact hstill
  have henabled : ∀ m, n ≤ m → enabled (x.state m) := by
    intro m hm
    have hk := hstays (m - n)
    rwa [show n + (m - n) = m by omega] at hk
  obtain ⟨m, hm, htaken⟩ := hfair n henabled
  exact hnever ⟨m, hm, henabled m hm, htaken⟩

end Execution

end Machine

end Foundation

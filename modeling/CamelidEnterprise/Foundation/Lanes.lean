import Mathlib.Tactic.Linarith
import CamelidEnterprise.Foundation.Buffer

/-!
# Lanes of a vector register

A register is the signed integers its lanes hold. An instruction is given by the integer
each lane should hold, which it stores in the width of a lane: modulo a power of two, or
the nearest that fits. `Laned` keeps beside the result of a computation whether every lane
of every instruction held its integer as it was, so that "no lane overflows on the way" is a
statement about the computation and not only about what it returns.

`lanes_of_fits` is the rule for an instruction: where the integers fit it stores them. A
computation is then a chain of registers of known integers.
-/

namespace Foundation

/-- What a computation on lanes returns, and whether every lane held its integer. -/
structure Laned (α : Type) where
  value : α
  exact : Bool
deriving DecidableEq, Repr

namespace Laned

variable {α β : Type}

instance : Monad Laned where
  pure a := ⟨a, true⟩
  bind x f := ⟨(f x.value).value, x.exact && (f x.value).exact⟩

@[simp] theorem pure_bind (a : α) (f : α → Laned β) : (pure a >>= f) = f a := by
  show (⟨(f a).value, true && (f a).exact⟩ : Laned β) = f a
  rw [Bool.true_and]

/-- A loop whose turns are all exact is a fold. -/
theorem foldlM_pure {f : β → α → Laned β} {g : β → α → β} {xs : List α}
    (h : ∀ x ∈ xs, ∀ b, f b x = pure (g b x)) (b : β) : xs.foldlM f b = pure (xs.foldl g b) := by
  induction xs generalizing b with
  | nil => rfl
  | cons x xs ih =>
    rw [List.foldlM_cons, h x List.mem_cons_self, pure_bind, List.foldl_cons,
      ih fun y hy => h y (List.mem_cons_of_mem _ hy)]

end Laned

namespace Lanes

open Buffer

-- ---------------------------------------------------------------------------
-- Integers in a lane
-- ---------------------------------------------------------------------------

/-- The signed integers of a lane of `w` bits. -/
def InLane (w : ℕ) (x : ℤ) : Prop := -2 ^ (w - 1) ≤ x ∧ x < 2 ^ (w - 1)

instance (w : ℕ) (x : ℤ) : Decidable (InLane w x) := inferInstanceAs (Decidable (_ ∧ _))

/-- An integer modulo `2 ^ w`, as a signed one. -/
def wrap (w : ℕ) (x : ℤ) : ℤ := x.bmod (2 ^ w)

/-- The nearest integer of a lane. -/
def saturate (w : ℕ) (x : ℤ) : ℤ := max (-2 ^ (w - 1)) (min (2 ^ (w - 1) - 1) x)

theorem wrap_of_inLane {w : ℕ} (hw : 0 < w) {x : ℤ} (h : InLane w x) : wrap w x = x := by
  obtain ⟨k, rfl⟩ : ∃ k, w = k + 1 := ⟨w - 1, by omega⟩
  obtain ⟨hlow, hhigh⟩ := h
  rw [Nat.add_sub_cancel] at hlow hhigh
  unfold wrap
  rw [Int.bmod_eq_iff (Nat.two_pow_pos _)]
  refine ⟨?_, ?_, by simp⟩
  · push_cast
    rw [pow_succ]
    omega
  · push_cast
    rw [pow_succ]
    omega

theorem saturate_of_inLane {w : ℕ} {x : ℤ} (h : InLane w x) : saturate w x = x := by
  unfold saturate
  rw [min_eq_right (Int.le_sub_one_of_lt h.2), max_eq_right h.1]

/-- A product of two bytes. -/
theorem mul_bytes {a b : ℤ} (ha : -128 ≤ a ∧ a ≤ 127) (hb : -128 ≤ b ∧ b ≤ 127) :
    -16384 ≤ a * b ∧ a * b ≤ 16384 := by
  obtain ⟨ha, ha'⟩ := ha
  obtain ⟨hb, hb'⟩ := hb
  constructor
  · nlinarith
  · nlinarith

-- ---------------------------------------------------------------------------
-- Registers
-- ---------------------------------------------------------------------------

/-- The register of `n` lanes that hold these integers. -/
def reg {α : Type} (n : ℕ) (f : ℕ → α) : Vector α n := Vector.ofFn fun i => f i

theorem peek_reg {α : Type} [Inhabited α] {n i : ℕ} (f : ℕ → α) (h : i < n) :
    peek (reg n f) i = f i := by
  rw [peek_of_lt _ h]
  simp [reg]

theorem reg_congr {α : Type} {n : ℕ} {f g : ℕ → α} (h : ∀ i < n, f i = g i) : reg n f = reg n g := by
  unfold reg
  refine congrArg Vector.ofFn (funext fun i => h i i.isLt)

/-- Store these integers in lanes of `w` bits, made to fit. -/
def storeLanes (fit : ℤ → ℤ) (n : ℕ) (f : ℕ → ℤ) : Laned (Vector ℤ n) :=
  ⟨reg n fun i => fit (f i), (List.range n).all fun i => decide (fit (f i) = f i)⟩

/-- An instruction that wraps. -/
def lanes (w n : ℕ) (f : ℕ → ℤ) : Laned (Vector ℤ n) := storeLanes (wrap w) n f

/-- An instruction that saturates. -/
def lanesSaturating (w n : ℕ) (f : ℕ → ℤ) : Laned (Vector ℤ n) := storeLanes (saturate w) n f

/-- A scalar of `w` bits. -/
def scalar (w : ℕ) (x : ℤ) : Laned ℤ := ⟨wrap w x, decide (wrap w x = x)⟩

theorem storeLanes_of_fits {fit : ℤ → ℤ} {n : ℕ} {f g : ℕ → ℤ} (h : ∀ i < n, f i = g i)
    (hfit : ∀ i < n, fit (g i) = g i) : storeLanes fit n f = pure (reg n g) := by
  have hexact : ((List.range n).all fun i => decide (fit (f i) = f i)) = true := by
    rw [List.all_eq_true]
    intro i hi
    rw [decide_eq_true_eq, h i (List.mem_range.mp hi)]
    exact hfit i (List.mem_range.mp hi)
  have hvalue : (reg n fun i => fit (f i)) = reg n g :=
    reg_congr fun i hi => by rw [h i hi, hfit i hi]
  unfold storeLanes
  rw [hexact, hvalue]
  rfl

/-- The rule for an instruction whose integers fit. -/
theorem lanes_of_fits {w n : ℕ} (hw : 0 < w) {f g : ℕ → ℤ} (h : ∀ i < n, f i = g i)
    (hfits : ∀ i < n, InLane w (g i)) : lanes w n f = pure (reg n g) :=
  storeLanes_of_fits h fun i hi => wrap_of_inLane hw (hfits i hi)

theorem lanesSaturating_of_fits {w n : ℕ} {f g : ℕ → ℤ} (h : ∀ i < n, f i = g i)
    (hfits : ∀ i < n, InLane w (g i)) : lanesSaturating w n f = pure (reg n g) :=
  storeLanes_of_fits h fun i hi => saturate_of_inLane (hfits i hi)

theorem scalar_of_fits {w : ℕ} (hw : 0 < w) {x : ℤ} (h : InLane w x) : scalar w x = pure x := by
  unfold scalar
  rw [wrap_of_inLane hw h, decide_eq_true rfl]
  rfl

end Lanes

end Foundation

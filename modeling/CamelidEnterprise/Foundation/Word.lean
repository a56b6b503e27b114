import Mathlib.Algebra.Order.Group.Nat
import Mathlib.Data.Nat.Bitwise
import Mathlib.Tactic.Ring
import CamelidEnterprise.Foundation.Outcome

/-!
# 64-bit words: checked arithmetic and alignment

The `checked_*` operations of an unsigned 64-bit word and rounding up to a power
of two by masking. The theorems say what the operations compute on the natural
numbers the words stand for, so that a proof about code that uses them is a proof
about exact arithmetic.
-/

namespace Foundation

namespace Word

/-- `checked_add`: absent when the sum leaves the word. -/
def checkedAdd (a b : UInt64) : Option UInt64 :=
  if a.toNat + b.toNat < 2 ^ 64 then some (a + b) else none

/-- `checked_mul`: absent when the product leaves the word. -/
def checkedMul (a b : UInt64) : Option UInt64 :=
  if a.toNat * b.toNat < 2 ^ 64 then some (a * b) else none

/-- `checked_div`: absent on a zero divisor. -/
def checkedDiv (a b : UInt64) : Option UInt64 :=
  if b = 0 then none else some (a / b)

/-- The plain `-` operator, which has no meaning below zero. -/
def plainSub {ε : Type} (a b : UInt64) : Outcome ε UInt64 :=
  if b.toNat ≤ a.toNat then .ok (a - b) else .fault .overflow

/-- `is_power_of_two`. -/
def isPowerOfTwo (a : UInt64) : Bool := a.toNat == 2 ^ Nat.log2 a.toNat

theorem checkedAdd_eq_some {a b c : UInt64} :
    checkedAdd a b = some c ↔ c.toNat = a.toNat + b.toNat := by
  unfold checkedAdd
  have hc : c.toNat < 2 ^ 64 := c.toNat_lt
  split
  · rename_i h
    rw [Option.some.injEq, ← UInt64.toNat_inj, UInt64.toNat_add, Nat.mod_eq_of_lt h]
    exact eq_comm
  · rename_i h
    simp only [reduceCtorEq, false_iff]
    omega

theorem checkedMul_eq_some {a b c : UInt64} :
    checkedMul a b = some c ↔ c.toNat = a.toNat * b.toNat := by
  unfold checkedMul
  have hc : c.toNat < 2 ^ 64 := c.toNat_lt
  split
  · rename_i h
    rw [Option.some.injEq, ← UInt64.toNat_inj, UInt64.toNat_mul, Nat.mod_eq_of_lt h]
    exact eq_comm
  · rename_i h
    simp only [reduceCtorEq, false_iff]
    omega

theorem checkedDiv_eq_some {a b c : UInt64} :
    checkedDiv a b = some c ↔ b ≠ 0 ∧ c.toNat = a.toNat / b.toNat := by
  unfold checkedDiv
  split
  · rename_i h
    simp [h]
  · rename_i h
    rw [Option.some.injEq, ← UInt64.toNat_inj, UInt64.toNat_div]
    simp [h, eq_comm]

theorem plainSub_eq_ok {ε : Type} {a b c : UInt64} :
    (plainSub a b : Outcome ε UInt64) = .ok c ↔ b.toNat ≤ a.toNat ∧ c = a - b := by
  unfold plainSub
  split
  · rename_i h
    simp [h, eq_comm]
  · rename_i h
    simp [h]

theorem exists_pow_of_isPowerOfTwo {a : UInt64} (h : isPowerOfTwo a = true) :
    ∃ k, a.toNat = 2 ^ k :=
  ⟨Nat.log2 a.toNat, by simpa [isPowerOfTwo] using h⟩

/-! ## Alignment -/

/-- The least multiple of `a` that is not below `n`. -/
def alignUp (n a : Nat) : Nat := (n + (a - 1)) / a * a

theorem dvd_alignUp (n a : Nat) : a ∣ alignUp n a := Nat.dvd_mul_left _ _

theorem le_alignUp {n a : Nat} (ha : 0 < a) : n ≤ alignUp n a := by
  unfold alignUp
  have hdiv := Nat.div_add_mod (n + (a - 1)) a
  have hmod := Nat.mod_lt (n + (a - 1)) ha
  have hcomm : (n + (a - 1)) / a * a = a * ((n + (a - 1)) / a) := Nat.mul_comm _ _
  omega

/-- Rounding up commutes with a shift by a multiple. -/
theorem alignUp_add_of_dvd {a d : Nat} (n : Nat) (hd : a ∣ d) :
    alignUp (d + n) a = d + alignUp n a := by
  obtain ⟨q, rfl⟩ := hd
  unfold alignUp
  rcases Nat.eq_zero_or_pos a with rfl | ha
  · simp
  · rw [Nat.add_assoc, Nat.mul_add_div ha, Nat.add_mul, Nat.mul_comm q a]

/-- Clearing the low bits of `x` with the complement of a mask `2 ^ k - 1`
rounds `x` down to a multiple of `2 ^ k`. -/
theorem toNat_and_not_mask {x m : UInt64} {k : Nat} (hm : m.toNat = 2 ^ k - 1) :
    (x &&& ~~~m).toNat = x.toNat / 2 ^ k * 2 ^ k := by
  have hk : k ≤ 64 := by
    by_contra hlt
    have hpow : 2 ^ 65 ≤ 2 ^ k := Nat.pow_le_pow_right (by omega) (by omega)
    have := m.toNat_lt
    omega
  have hx := x.toNat_lt
  rw [UInt64.toNat_and, UInt64.toNat_not, hm, ← Nat.shiftRight_eq_div_pow, ← Nat.shiftLeft_eq]
  apply Nat.eq_of_testBit_eq
  intro i
  rw [Nat.testBit_and, Nat.testBit_shiftLeft, Nat.testBit_shiftRight]
  have hmask : 2 ^ k - 1 < 2 ^ 64 :=
    Nat.lt_of_lt_of_le (Nat.sub_lt (Nat.two_pow_pos k) (by omega))
      (Nat.pow_le_pow_right (by omega) hk)
  have hnot : UInt64.size - 1 - (2 ^ k - 1) = 2 ^ 64 - ((2 ^ k - 1) + 1) := by
    rw [UInt64.size]
    omega
  rw [hnot, Nat.testBit_two_pow_sub_succ hmask, Nat.testBit_two_pow_sub_one]
  by_cases hik : i < k
  · simp [hik, Nat.not_le.mpr hik]
  · have hki : k ≤ i := Nat.le_of_not_lt hik
    simp only [hik, decide_false, Bool.not_false, Bool.and_true, ge_iff_le, hki, decide_true,
      Bool.true_and, Nat.add_sub_cancel' hki]
    by_cases hi : i < 64
    · simp [hi]
    · have hfalse : x.toNat.testBit i = false :=
        Nat.testBit_lt_two_pow (Nat.lt_of_lt_of_le hx (Nat.pow_le_pow_right (by omega) (by omega)))
      simp [hfalse]

/-! ## Tilings -/

/-- `size` consecutive addresses from `start` on. -/
structure Span where
  start : Nat
  size : Nat
deriving DecidableEq, Repr

/-- The first address after a span. -/
def Span.finish (s : Span) : Nat := s.start + s.size

/-- Spans laid out in order: the first at `n`, each later one at the aligned end
of the one before it. -/
def Tiled (a : Nat) : Nat → List Span → Prop
  | _, [] => True
  | n, s :: ss => s.start = n ∧ Tiled a (alignUp s.finish a) ss

theorem Tiled.le_start {a : Nat} (ha : 0 < a) :
    ∀ {n : Nat} {ss : List Span}, Tiled a n ss → ∀ s ∈ ss, n ≤ s.start
  | n, t :: ts, ⟨hstart, htail⟩, s, hs => by
    rcases List.mem_cons.mp hs with rfl | hs
    · exact Nat.le_of_eq hstart.symm
    · have hrest := Tiled.le_start ha htail s hs
      have hfinish : t.finish ≤ alignUp t.finish a := le_alignUp ha
      have hle : t.start ≤ t.finish := Nat.le_add_right _ _
      omega

theorem Tiled.dvd_start {a : Nat} :
    ∀ {n : Nat} {ss : List Span}, Tiled a n ss → a ∣ n → ∀ s ∈ ss, a ∣ s.start
  | n, t :: ts, ⟨hstart, htail⟩, hn, s, hs => by
    rcases List.mem_cons.mp hs with rfl | hs
    · rw [hstart]
      exact hn
    · exact Tiled.dvd_start htail (dvd_alignUp _ a) s hs

/-- No span of a tiling reaches into a later one. -/
theorem Tiled.pairwise {a : Nat} (ha : 0 < a) :
    ∀ {n : Nat} {ss : List Span}, Tiled a n ss → ss.Pairwise fun s t => s.finish ≤ t.start
  | _, [], _ => List.Pairwise.nil
  | n, t :: ts, ⟨_, htail⟩ => by
    refine List.pairwise_cons.mpr ⟨?_, Tiled.pairwise ha htail⟩
    intro s hs
    exact Nat.le_trans (le_alignUp ha) (Tiled.le_start ha htail s hs)

theorem Tiled.isChain {a : Nat} :
    ∀ {n : Nat} {ss : List Span}, Tiled a n ss →
      ss.IsChain fun s t => t.start = alignUp s.finish a
  | _, [], _ => List.IsChain.nil
  | _, [_], _ => List.IsChain.singleton _
  | _, _ :: t :: _, ⟨_, hnext, htail⟩ =>
    List.IsChain.cons_cons hnext (Tiled.isChain (n := t.start) ⟨rfl, htail⟩)

/-! ## Single-precision floats by their bits -/

/-- A NaN: all exponent bits set, and a mantissa. -/
def f32IsNan (a : UInt32) : Bool := a.toNat % 2 ^ 31 > 0x7f800000

/-- The place of a number in the order of floats; both zeros are at 0. -/
def f32Order (a : UInt32) : Int :=
  if a.toNat < 2 ^ 31 then a.toNat else -(a.toNat % 2 ^ 31 : Nat)

/-- `a < b` -/
def f32Lt (a b : UInt32) : Bool := !f32IsNan a && !f32IsNan b && f32Order a < f32Order b

/-- `a == b` -/
def f32Eq (a b : UInt32) : Bool := !f32IsNan a && !f32IsNan b && f32Order a == f32Order b

end Word

end Foundation

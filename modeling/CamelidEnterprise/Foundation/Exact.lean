import Mathlib.Algebra.BigOperators.Intervals
import Mathlib.Algebra.BigOperators.Ring.List
import Mathlib.Data.ZMod.ValMinAbs
import CamelidEnterprise.Foundation.Nearest
import CamelidEnterprise.Foundation.Rows
import CamelidEnterprise.Foundation.Single

/-!
# Sums that are not rounded

What a chain of float operations computes where none of them rounds. A finite float stands
for a rational number, `F32.toRat`, and `ExactFold` says of one fold that each of its
partial sums is the sum of the two numbers: a condition on the operands that are met, as
arithmetic on small integers and on powers of two meets it, and not on the arithmetic. A fold
without rounding is then a sum (`ExactFold.toRat_foldl`), and a dot product is a sum over
indices (`dot_eq_sum`).

The arithmetic on residues at the end is one to run examples with. It gives the true result
on integers of up to twelve bits.
-/

namespace Foundation

variable {R : Type} [CommRing R]

-- ---------------------------------------------------------------------------
-- Dot products
-- ---------------------------------------------------------------------------

/-- The sum of the products of two lists, as far as both go. -/
def dot (us vs : List R) : R := (List.zipWith (· * ·) us vs).sum

theorem dot_cons (u v : R) (us vs : List R) : dot (u :: us) (v :: vs) = u * v + dot us vs := by
  unfold dot
  rw [List.zipWith_cons_cons, List.sum_cons]

theorem dot_append {us vs : List R} (h : us.length = vs.length) (us' vs' : List R) :
    dot (us ++ us') (vs ++ vs') = dot us vs + dot us' vs' := by
  unfold dot
  rw [List.zipWith_append h, List.sum_append]

/-- A dot product as a sum over indices. -/
theorem dot_eq_sum {us vs : List R} (h : us.length = vs.length) :
    dot us vs = ∑ i ∈ Finset.range us.length, us.getD i 0 * vs.getD i 0 := by
  induction us generalizing vs with
  | nil => simp [dot]
  | cons u us ih =>
    obtain ⟨v, vs, rfl⟩ : ∃ v vs', vs = v :: vs' := by
      rcases vs with _ | ⟨v, vs'⟩
      · exact absurd h (by simp)
      · exact ⟨v, vs', rfl⟩
    have hlen : us.length = vs.length := by simpa using h
    rw [dot_cons, ih hlen, List.length_cons, Finset.sum_range_succ', add_comm]
    rfl

-- ---------------------------------------------------------------------------
-- Folds
-- ---------------------------------------------------------------------------

/-- The number that a finite float stands for. -/
def F32.toRat (x : F32) : ℚ :=
  let size := Format.single.place (Format.single.magnitude x.bits.toNat)
  if Format.single.isNegative x.bits.toNat then -size else size

theorem F32.toRat_zero : F32.toRat 0 = 0 := by decide +kernel

theorem F32.toRat_negZero : F32.toRat (-0) = 0 := by decide +kernel

section Folds

variable [FloatOps]

/-- No partial sum of the fold is rounded. -/
def ExactFold : F32 → List F32 → Prop
  | _, [] => True
  | start, x :: xs => (start + x).toRat = start.toRat + x.toRat ∧ ExactFold (start + x) xs

instance : (start : F32) → (xs : List F32) → Decidable (ExactFold start xs)
  | _, [] => inferInstanceAs (Decidable True)
  | start, x :: xs =>
    have : Decidable (ExactFold (start + x) xs) := instDecidableExactFold (start + x) xs
    inferInstanceAs (Decidable (_ ∧ _))

/-- A fold without rounding is a sum. -/
theorem ExactFold.toRat_foldl {start : F32} {xs : List F32} (h : ExactFold start xs) :
    (xs.foldl (· + ·) start).toRat = start.toRat + (xs.map F32.toRat).sum := by
  induction xs generalizing start with
  | nil => simp
  | cons x xs ih =>
    obtain ⟨hsum, hrest⟩ := h
    rw [List.foldl_cons, ih hrest, hsum, List.map_cons, List.sum_cons, add_assoc]

end Folds

-- ---------------------------------------------------------------------------
-- Residues
-- ---------------------------------------------------------------------------

/-- A finite float as a residue, in which halving is multiplication with `2 ^ 12`. -/
def residue (x : F32) : ZMod 8191 :=
  let (m, k) := Format.single.significand (Format.single.magnitude x.bits.toNat)
  let size : ZMod 8191 := m * (if 0 ≤ k then 2 ^ k.natAbs else 4096 ^ k.natAbs)
  if Format.single.isNegative x.bits.toNat then -size else size

/-- The float of least size with this residue. -/
def ofResidue (r : ZMod 8191) : F32 := F32.ofInt r.valMinAbs

/-- Sums and products by their residues, as long as these are small the true ones. -/
@[reducible] def residueOps : FloatOps where
  add x y := ofResidue (residue x + residue y)
  sub x y := ofResidue (residue x - residue y)
  mul x y := ofResidue (residue x * residue y)
  div x _ := x
  powf x _ := x
  max x y := if x.lt y then y else x
  min x y := if y.lt x then y else x
  sqrt x := x
  exp x := x
  ln x := x
  floor x := x
  ceil x := x
  round x := x
  sin x := x
  cos x := x
  display _ := ""

end Foundation

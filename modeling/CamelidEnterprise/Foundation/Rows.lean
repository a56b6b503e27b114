import Mathlib.Tactic.Linarith
import Mathlib.Tactic.Ring

/-!
# Flat buffers of rows

A table kept in one flat buffer: row `r` of a table of rows of width `w` is the
`w` elements from `r * w` on. `slice` reads a range, `splice` writes one in place,
`resize` grows the buffer.

* `row_splice_self` and `row_splice_of_ne` — a row that is read was written last,
  and a write to one row leaves the others;
* `place_inj` — how a table of several indices is numbered row by row.
-/

namespace Foundation

namespace Rows

variable {α : Type}

-- ---------------------------------------------------------------------------
-- Ranges
-- ---------------------------------------------------------------------------

/-- `&xs[start..start + len]`, absent where the range leaves the buffer. -/
def slice (xs : List α) (start len : Nat) : Option (List α) :=
  if start + len ≤ xs.length then some ((xs.drop start).take len) else none

/-- The elements from `start` on, overwritten with `ys`. -/
def splice (xs : List α) (start : Nat) (ys : List α) : List α :=
  xs.take start ++ ys ++ xs.drop (start + ys.length)

/-- `Vec::resize` -/
def resize (xs : List α) (len : Nat) (a : α) : List α :=
  xs.take len ++ List.replicate (len - xs.length) a

theorem slice_of_le {xs : List α} {start len : Nat} (h : start + len ≤ xs.length) :
    slice xs start len = some ((xs.drop start).take len) := if_pos h

theorem slice_eq_some {xs ys : List α} {start len : Nat} :
    slice xs start len = some ys ↔
      start + len ≤ xs.length ∧ ys.length = len ∧ ∀ i < len, ys[i]? = xs[start + i]? := by
  unfold slice
  constructor
  · intro h
    split at h
    · rename_i hle
      obtain rfl := Option.some.inj h
      refine ⟨hle, by simp; omega, ?_⟩
      intro i hi
      rw [List.getElem?_take_of_lt hi, List.getElem?_drop]
    · exact absurd h (by simp)
  · rintro ⟨hle, hlen, hget⟩
    rw [if_pos hle, Option.some.injEq]
    apply List.ext_getElem?
    intro i
    by_cases hi : i < len
    · rw [List.getElem?_take_of_lt hi, List.getElem?_drop, hget i hi]
    · rw [List.getElem?_eq_none (by simp; omega), List.getElem?_eq_none (by omega)]

theorem length_of_slice {xs ys : List α} {start len : Nat} (h : slice xs start len = some ys) :
    ys.length = len := (slice_eq_some.mp h).2.1

theorem length_splice {xs ys : List α} {start : Nat} (h : start + ys.length ≤ xs.length) :
    (splice xs start ys).length = xs.length := by
  simp [splice]
  omega

theorem getElem?_splice {xs ys : List α} {start i : Nat} (h : start + ys.length ≤ xs.length) :
    (splice xs start ys)[i]? =
      if i < start ∨ start + ys.length ≤ i then xs[i]? else ys[i - start]? := by
  have htake : (xs.take start).length = start := by simp; omega
  unfold splice
  rw [List.append_assoc]
  by_cases hlow : i < start
  · rw [if_pos (Or.inl hlow), List.getElem?_append_left (by omega),
      List.getElem?_take_of_lt hlow]
  · rw [List.getElem?_append_right (by omega), htake]
    by_cases hhigh : start + ys.length ≤ i
    · rw [if_pos (Or.inr hhigh), List.getElem?_append_right (by omega), List.getElem?_drop]
      congr 1
      omega
    · rw [if_neg (by omega), List.getElem?_append_left (by omega)]

theorem slice_splice_self {xs ys : List α} {start : Nat} (h : start + ys.length ≤ xs.length) :
    slice (splice xs start ys) start ys.length = some ys := by
  rw [slice_eq_some]
  refine ⟨by rw [length_splice h]; omega, rfl, ?_⟩
  intro i hi
  rw [getElem?_splice h, if_neg (by omega), Nat.add_sub_cancel_left]

theorem slice_splice_of_disjoint {xs ys : List α} {start start' len : Nat}
    (h : start + ys.length ≤ xs.length)
    (hdisjoint : start' + len ≤ start ∨ start + ys.length ≤ start') :
    slice (splice xs start ys) start' len = slice xs start' len := by
  unfold slice
  rw [length_splice h]
  split
  · congr 1
    apply List.ext_getElem?
    intro i
    by_cases hi : i < len
    · rw [List.getElem?_take_of_lt hi, List.getElem?_take_of_lt hi, List.getElem?_drop,
        List.getElem?_drop, getElem?_splice h, if_pos (by omega)]
    · rw [List.getElem?_eq_none (by simp; omega), List.getElem?_eq_none (by simp; omega)]
  · rfl

@[simp] theorem length_resize (xs : List α) (len : Nat) (a : α) : (resize xs len a).length = len := by
  simp [resize]
  omega

theorem slice_resize {xs : List α} {start len n : Nat} (a : α) (hn : xs.length ≤ n)
    (h : start + len ≤ xs.length) : slice (resize xs n a) start len = slice xs start len := by
  rw [slice_of_le h, slice_of_le (by simp; omega)]
  unfold resize
  rw [List.take_of_length_le hn, List.drop_append_of_le_length (by omega),
    List.take_append_of_le_length (by simp; omega)]

/-- What growth adds is filled. -/
theorem slice_resize_new {xs : List α} {start len n : Nat} (a : α) (hstart : xs.length ≤ start)
    (h : start + len ≤ n) : slice (resize xs n a) start len = some (List.replicate len a) := by
  rw [slice_eq_some]
  refine ⟨by simpa using h, by simp, ?_⟩
  intro i hi
  have htake : xs.take n = xs := List.take_of_length_le (by omega)
  unfold resize
  rw [htake, List.getElem?_append_right (by omega), List.getElem?_replicate_of_lt hi,
    List.getElem?_replicate_of_lt (by omega)]

-- ---------------------------------------------------------------------------
-- Rows
-- ---------------------------------------------------------------------------

/-- Row `r` of a buffer of rows of width `w`. -/
def row (xs : List α) (w r : Nat) : Option (List α) := slice xs (r * w) w

/-- Two rows do not overlap. -/
theorem row_disjoint {r r' : Nat} (w : Nat) (h : r ≠ r') : r * w + w ≤ r' * w ∨ r' * w + w ≤ r * w := by
  have hle : ∀ {a b : Nat}, a < b → a * w + w ≤ b * w := by
    intro a b hab
    have := Nat.mul_le_mul_right w (Nat.succ_le_of_lt hab)
    rw [Nat.succ_mul] at this
    exact this
  rcases Nat.lt_or_gt_of_ne h with hlt | hgt
  · exact Or.inl (hle hlt)
  · exact Or.inr (hle hgt)

/-- A row below the count of rows lies in the buffer. -/
theorem row_le {n w r : Nat} (h : r < n) : r * w + w ≤ n * w := by
  have := Nat.mul_le_mul_right w (Nat.succ_le_of_lt h)
  rw [Nat.succ_mul] at this
  exact this

theorem row_splice_self {xs ys : List α} {w r : Nat} (hys : ys.length = w)
    (h : r * w + w ≤ xs.length) : row (splice xs (r * w) ys) w r = some ys := by
  subst hys
  exact slice_splice_self h

theorem row_splice_of_ne {xs ys : List α} {w r r' : Nat} (hys : ys.length = w)
    (h : r * w + w ≤ xs.length) (hne : r' ≠ r) :
    row (splice xs (r * w) ys) w r' = row xs w r' := by
  subst hys
  exact slice_splice_of_disjoint h (row_disjoint _ hne)

/-- Rows of one width, one after the other. -/
theorem length_flatten {rows : List (List α)} {w : Nat} (h : ∀ row ∈ rows, row.length = w) :
    rows.flatten.length = rows.length * w := by
  induction rows with
  | nil => simp
  | cons row rows ih =>
    rw [List.flatten_cons, List.length_append, h row List.mem_cons_self,
      ih fun row hrow => h row (List.mem_cons_of_mem _ hrow), List.length_cons, Nat.succ_mul,
      Nat.add_comm]

-- ---------------------------------------------------------------------------
-- Rows of blocks
-- ---------------------------------------------------------------------------

section Blocks

variable {β : Type} {f : α → List β} {w : Nat} (hw : ∀ a, (f a).length = w)

include hw

theorem length_flatMap_blocks (xs : List α) : (xs.flatMap f).length = xs.length * w := by
  induction xs with
  | nil => simp
  | cons x xs ih =>
    rw [List.flatMap_cons, List.length_append, hw, ih, List.length_cons, Nat.succ_mul, Nat.add_comm]

theorem drop_flatMap_blocks (xs : List α) (n : Nat) :
    (xs.flatMap f).drop (n * w) = (xs.drop n).flatMap f := by
  induction n generalizing xs with
  | zero => simp
  | succ n ih =>
    rcases xs with _ | ⟨x, xs⟩
    · simp
    · have hsplit : (n + 1) * w = (f x).length + n * w := by rw [hw, Nat.succ_mul, Nat.add_comm]
      rw [List.flatMap_cons, hsplit, List.drop_length_add_append, ih, List.drop_succ_cons]

theorem take_flatMap_blocks (xs : List α) (n : Nat) :
    (xs.flatMap f).take (n * w) = (xs.take n).flatMap f := by
  induction n generalizing xs with
  | zero => simp
  | succ n ih =>
    rcases xs with _ | ⟨x, xs⟩
    · simp
    · have hsplit : (n + 1) * w = (f x).length + n * w := by rw [hw, Nat.succ_mul, Nat.add_comm]
      rw [List.flatMap_cons, hsplit, List.take_length_add_append, ih, List.take_succ_cons,
        List.flatMap_cons]

/-- A row of unpacked blocks is a row of blocks, unpacked. -/
theorem row_flatMap (xs : List α) (k r : Nat) {ys : List α} (h : row xs k r = some ys) :
    row (xs.flatMap f) (k * w) r = some (ys.flatMap f) := by
  unfold row at h ⊢
  have hle := (slice_eq_some.mp h).1
  rw [slice_of_le hle] at h
  obtain rfl := Option.some.inj h
  have hstart : r * (k * w) = r * k * w := by ring
  have hbound : r * (k * w) + k * w ≤ (xs.flatMap f).length := by
    rw [length_flatMap_blocks hw, hstart, ← Nat.add_mul]
    exact Nat.mul_le_mul_right w hle
  rw [slice_of_le hbound, hstart, drop_flatMap_blocks hw, take_flatMap_blocks hw]

/-- An element of unpacked blocks lies in its own block. -/
theorem getElem?_flatMap_blocks (xs : List α) (i j : Nat) (hj : j < w) :
    (xs.flatMap f)[i * w + j]? = xs[i]?.bind fun x => (f x)[j]? := by
  induction xs generalizing i with
  | nil => simp
  | cons x xs ih =>
    rw [List.flatMap_cons]
    rcases i with _ | i
    · rw [List.getElem?_append_left (by rw [hw]; omega), Nat.zero_mul, Nat.zero_add]
      rfl
    · have hplace : (i + 1) * w + j - (f x).length = i * w + j := by
        rw [hw, Nat.succ_mul]
        omega
      rw [List.getElem?_append_right (by rw [hw, Nat.succ_mul]; omega), hplace, ih]
      rfl

end Blocks

-- ---------------------------------------------------------------------------
-- Numbering
-- ---------------------------------------------------------------------------

/-- Pairs below a bound in their second half are numbered one to one. -/
theorem place_inj {n a b a' b' : Nat} (hb : b < n) (hb' : b' < n) :
    a * n + b = a' * n + b' ↔ a = a' ∧ b = b' := by
  constructor
  · intro h
    have hmod := congrArg (· % n) h
    have hdiv := congrArg (· / n) h
    simp only [Nat.mul_comm _ n, Nat.mul_add_mod, Nat.mod_eq_of_lt hb, Nat.mod_eq_of_lt hb'] at hmod
    simp only [Nat.mul_comm _ n, Nat.mul_add_div (Nat.zero_lt_of_lt hb), Nat.div_eq_of_lt hb,
      Nat.div_eq_of_lt hb', Nat.add_zero] at hdiv
    exact ⟨hdiv, hmod⟩
  · rintro ⟨rfl, rfl⟩
    rfl

theorem place_lt {n m a b : Nat} (ha : a < m) (hb : b < n) : a * n + b < m * n := by
  have := row_le (w := n) ha
  omega

end Rows

end Foundation

import Mathlib.Data.Int.ConditionallyCompleteOrder
import Mathlib.Order.WithBotTop
import CamelidEnterprise.Foundation.Lanes
import CamelidEnterprise.Foundation.Rounding

/-!
# Floats as extended numbers

A float stands for a rational, for one of the infinities, or for no number. The numbers
with their infinities are a linear order, and every way to take the greater of two floats is
the maximum of that order on numbers: the ways differ in what they make of a NaN.

* `maximum`, `clamp` — as of a language that ignores a NaN, and lets one through;
* `fmax`, `fmin` — a NaN goes on;
* `maxps`, `minps` — the second operand, where one is a NaN.

The conversions to integers round to nearest, ties away from zero or to even. `tie_correction`
makes the first rounding out of the second.
-/

namespace Foundation

/-- A float: no number, or a rational or infinite one. -/
inductive Extended
  | nan
  | number (x : WithBotTop ℚ)
deriving DecidableEq

namespace Extended

/-- A rational number. -/
def rat (q : ℚ) : Extended := number (WithBotTop.coe q)

instance (n : ℕ) : OfNat Extended n := ⟨rat n⟩

instance : Inhabited Extended := ⟨0⟩

def isNan : Extended → Bool
  | nan => true
  | number _ => false

/-- The distance of a number from zero. -/
def magnitude : WithBotTop ℚ → WithBotTop ℚ
  | ⊥ => ⊤
  | (q : ℚ) => WithBotTop.coe |q|
  | ⊤ => ⊤

/-- `|x|` -/
def abs : Extended → Extended
  | nan => nan
  | number x => number (magnitude x)

/-- `x < y` -/
def lt : Extended → Extended → Bool
  | number x, number y => decide (x < y)
  | _, _ => false

/-- `x == y` -/
def eq : Extended → Extended → Bool
  | number x, number y => decide (x = y)
  | _, _ => false

@[simp] theorem eq_self (x : WithBotTop ℚ) : eq (number x) (number x) = true := decide_eq_true rfl

theorem eq_rat (a b : ℚ) : eq (rat a) (rat b) = decide (a = b) :=
  decide_eq_decide.mpr WithBotTop.coe_injective.eq_iff

theorem lt_rat (a b : ℚ) : lt (rat a) (rat b) = decide (a < b) :=
  decide_eq_decide.mpr WithBotTop.coe_lt_coe

/-- `x + y` -/
def add : Extended → Extended → Extended
  | nan, _ => nan
  | _, nan => nan
  | number ⊥, number ⊤ => nan
  | number ⊤, number ⊥ => nan
  | number ⊥, _ => number ⊥
  | _, number ⊥ => number ⊥
  | number ⊤, _ => number ⊤
  | _, number ⊤ => number ⊤
  | number (a : ℚ), number (b : ℚ) => rat (a + b)

/-- `-x` -/
def neg : Extended → Extended
  | nan => nan
  | number ⊥ => number ⊤
  | number (q : ℚ) => rat (-q)
  | number ⊤ => number ⊥

/-- `x - y` -/
def sub (x y : Extended) : Extended := add x (neg y)

@[simp] theorem add_rat (a b : ℚ) : add (rat a) (rat b) = rat (a + b) := rfl

@[simp] theorem sub_rat (a b : ℚ) : sub (rat a) (rat b) = rat (a - b) := by
  rw [sub_eq_add_neg]
  rfl

/-- `c` with the sign of `x`. -/
def copySign (c : ℚ) (x : Extended) : Extended := if x.lt 0 then rat (-c) else rat c

theorem copySign_rat (c q : ℚ) : copySign c (rat q) = rat (if q < 0 then -c else c) := by
  unfold copySign
  rw [show (0 : Extended) = rat 0 from rfl, lt_rat]
  by_cases h : q < 0
  · simp [h]
  · simp [h]

theorem magnitude_nonneg (x : WithBotTop ℚ) : 0 ≤ magnitude x := by
  induction x using WithBotTop.rec with
  | bot => exact le_top
  | coe q => exact WithBotTop.coe_le_coe.mpr (abs_nonneg q)
  | top => exact le_top

-- ---------------------------------------------------------------------------
-- The greater of two
-- ---------------------------------------------------------------------------

/-- The greater one; of a number and a NaN the number. -/
def maximum (x y : Extended) : Extended :=
  if x.isNan then y else if y.isNan then x else if x.lt y then y else x

/-- Between two bounds; a NaN stays one. -/
def clamp (x low high : Extended) : Extended :=
  let x := if x.lt low then low else x
  if high.lt x then high else x

/-- The greater one; with a NaN a NaN. -/
def fmax (x y : Extended) : Extended :=
  if x.isNan || y.isNan then nan else if x.lt y then y else x

/-- The smaller one; with a NaN a NaN. -/
def fmin (x y : Extended) : Extended :=
  if x.isNan || y.isNan then nan else if y.lt x then y else x

/-- The first one where it is greater, or else the second. -/
def maxps (x y : Extended) : Extended := if y.lt x then x else y

/-- The first one where it is smaller, or else the second. -/
def minps (x y : Extended) : Extended := if x.lt y then x else y

section Numbers

variable (x y : WithBotTop ℚ)

@[simp] theorem maximum_number : maximum (number x) (number y) = number (max x y) := by
  unfold maximum isNan lt
  rcases lt_or_ge x y with h | h
  · simp [h, h.le]
  · simp [not_lt.mpr h, h]

@[simp] theorem maximum_nan_right (x : Extended) : maximum x nan = x := by
  rcases x with _ | x
  · rfl
  · rfl

@[simp] theorem maximum_nan_left (x : Extended) : maximum nan x = x := rfl

@[simp] theorem fmax_number : fmax (number x) (number y) = number (max x y) := by
  unfold fmax isNan lt
  rcases lt_or_ge x y with h | h
  · simp [h, h.le]
  · simp [not_lt.mpr h, h]

@[simp] theorem fmin_number : fmin (number x) (number y) = number (min x y) := by
  unfold fmin isNan lt
  rcases lt_or_ge y x with h | h
  · simp [h, h.le]
  · simp [not_lt.mpr h, h]

@[simp] theorem fmax_nan_left (x : Extended) : fmax nan x = nan := rfl

@[simp] theorem fmax_nan_right (x : Extended) : fmax x nan = nan := by
  unfold fmax
  simp [isNan]

@[simp] theorem fmin_nan_left (x : Extended) : fmin nan x = nan := rfl

@[simp] theorem maxps_number : maxps (number x) (number y) = number (max x y) := by
  unfold maxps lt
  rcases lt_or_ge y x with h | h
  · simp [h, h.le]
  · simp [not_lt.mpr h, h]

@[simp] theorem minps_number : minps (number x) (number y) = number (min x y) := by
  unfold minps lt
  rcases lt_or_ge x y with h | h
  · simp [h, h.le]
  · simp [not_lt.mpr h, h]

@[simp] theorem clamp_number (low high : WithBotTop ℚ) :
    clamp (number x) (number low) (number high) = number (min (max x low) high) := by
  have hlow : (if (number x).lt (number low) then number low else number x) =
      number (max x low) := by
    unfold lt
    rcases lt_or_ge x low with hlt | hge
    · simp [hlt, hlt.le]
    · simp [not_lt.mpr hge, hge]
  unfold clamp
  dsimp only
  rw [hlow]
  unfold lt
  rcases lt_or_ge high (max x low) with hlt | hge
  · simp [hlt, hlt.le]
  · simp [not_lt.mpr hge, hge]

@[simp] theorem clamp_nan (low high : Extended) : clamp nan low high = nan := by
  unfold clamp lt
  rcases high with _ | high
  · rfl
  · rfl

end Numbers

-- ---------------------------------------------------------------------------
-- The greatest of many
-- ---------------------------------------------------------------------------

/-- What stands for a float among the numbers; for a NaN the least. -/
def value : Extended → WithBotTop ℚ
  | nan => ⊥
  | number x => x

/-- The greatest of zero and the numbers at these indices. -/
def greatest (f : ℕ → Extended) (s : Finset ℕ) : WithBotTop ℚ := max 0 (s.sup fun i => (f i).value)

/-- The greatest of the floats at these indices, a NaN where one of them is. -/
def summit (f : ℕ → Extended) (s : Finset ℕ) : Extended :=
  if ∃ i ∈ s, f i = nan then nan else number (s.sup fun i => (f i).value)

theorem maximum_of_number (x : WithBotTop ℚ) (y : Extended) :
    maximum (number x) y = number (max x y.value) := by
  rcases y with _ | y
  · rw [maximum_nan_right, value, max_bot_right]
  · rw [maximum_number, value]

section Greatest

variable (f : ℕ → Extended) (s t : Finset ℕ)

theorem max_greatest : max (greatest f s) (greatest f t) = greatest f (s ∪ t) := by
  unfold greatest
  rw [Finset.sup_union, max_max_max_comm, max_self]

theorem greatest_singleton (i : ℕ) : greatest f {i} = max 0 (f i).value := by
  unfold greatest
  rw [Finset.sup_singleton]

theorem fmax_summit : fmax (summit f s) (summit f t) = summit f (s ∪ t) := by
  unfold summit
  have hunion : (∃ i ∈ s ∪ t, f i = nan) ↔ (∃ i ∈ s, f i = nan) ∨ ∃ i ∈ t, f i = nan := by
    simp only [Finset.mem_union, or_and_right, exists_or]
  by_cases hs : ∃ i ∈ s, f i = nan
  · rw [if_pos hs, if_pos (hunion.mpr (.inl hs)), fmax_nan_left]
  by_cases ht : ∃ i ∈ t, f i = nan
  · rw [if_pos ht, if_pos (hunion.mpr (.inr ht)), fmax_nan_right]
  rw [if_neg hs, if_neg ht, if_neg fun h => (hunion.mp h).elim hs ht, fmax_number,
    Finset.sup_union]

theorem summit_singleton (i : ℕ) : summit f {i} = f i := by
  unfold summit
  rcases h : f i with _ | x
  · rw [if_pos ⟨i, Finset.mem_singleton_self i, h⟩]
  · rw [if_neg (by simp [h]), Finset.sup_singleton, h, value]

/-- No NaN at the first indices, and none of the numbers at the second exceeds them all. -/
def Leads : Prop :=
  (∀ i ∈ s, f i ≠ nan) ∧ ∀ j ∈ t, f j = nan ∨ ∃ i ∈ s, (f j).value ≤ (f i).value

variable {f s t}

theorem summit_of_nan (h : ∃ i ∈ s, f i = nan) : summit f s = nan := if_pos h

/-- Where no float of `s` is a NaN, its greatest is that of `s` and `t` where it leads. -/
theorem summit_eq_greatest_iff (hf : ∀ i, f i ≠ nan → 0 ≤ (f i).value) (hs : s.Nonempty)
    (hnum : ∀ i ∈ s, f i ≠ nan) : summit f s = number (greatest f (s ∪ t)) ↔ Leads f s t := by
  have hpos : 0 ≤ s.sup fun i => (f i).value := by
    obtain ⟨i, hi⟩ := hs
    exact (hf i (hnum i hi)).trans (Finset.le_sup (f := fun i => (f i).value) hi)
  unfold summit
  rw [if_neg fun ⟨i, hi, h⟩ => hnum i hi h, number.injEq, greatest, Finset.sup_union,
    ← max_assoc, max_eq_right hpos, left_eq_sup]
  constructor
  · intro hle
    refine ⟨hnum, fun j hj => .inr ?_⟩
    obtain ⟨i, hi, hsup⟩ := Finset.exists_mem_eq_sup s hs fun i => (f i).value
    exact ⟨i, hi, hsup ▸ (Finset.le_sup (f := fun i => (f i).value) hj).trans hle⟩
  · rintro ⟨-, hlead⟩
    refine Finset.sup_le fun j hj => ?_
    rcases hlead j hj with hnan | ⟨i, hi, hle⟩
    · rw [hnan]
      exact bot_le
    · exact hle.trans (Finset.le_sup (f := fun i => (f i).value) hi)

/-- The greatest of two halves, each of them lost to a NaN, is the greatest of all numbers
where there is no NaN, or where a half without one leads. -/
theorem maximum_summit_eq_iff (hf : ∀ i, f i ≠ nan → 0 ≤ (f i).value) (hs : s.Nonempty)
    (ht : t.Nonempty) : maximum (summit f s) (summit f t) = number (greatest f (s ∪ t)) ↔
      (∀ i ∈ s ∪ t, f i ≠ nan) ∨ Leads f s t ∨ Leads f t s := by
  by_cases hns : ∀ i ∈ s, f i ≠ nan
  · by_cases hnt : ∀ i ∈ t, f i ≠ nan
    · have hall : ∀ i ∈ s ∪ t, f i ≠ nan := fun i hi =>
        (Finset.mem_union.mp hi).elim (hns i) (hnt i)
      have hpos : 0 ≤ s.sup fun i => (f i).value := by
        obtain ⟨i, hi⟩ := hs
        exact (hf i (hns i hi)).trans (Finset.le_sup (f := fun i => (f i).value) hi)
      refine iff_of_true ?_ (.inl hall)
      unfold summit greatest
      rw [if_neg fun ⟨i, hi, h⟩ => hns i hi h, if_neg fun ⟨i, hi, h⟩ => hnt i hi h,
        maximum_number, Finset.sup_union, ← max_assoc, max_eq_right hpos]
    · have hnan : ∃ i ∈ t, f i = nan := by simpa using hnt
      have hlost : ¬ Leads f t s := fun h => hnt h.1
      have hnone : ¬ ∀ i ∈ s ∪ t, f i ≠ nan := fun h =>
        hnt fun i hi => h i (Finset.mem_union_right _ hi)
      rw [summit_of_nan hnan, maximum_nan_right, summit_eq_greatest_iff hf hs hns]
      simp only [hlost, hnone, or_false, false_or]
  · have hnan : ∃ i ∈ s, f i = nan := by simpa using hns
    have hlost : ¬ Leads f s t := fun h => hns h.1
    have hnone : ¬ ∀ i ∈ s ∪ t, f i ≠ nan := fun h =>
      hns fun i hi => h i (Finset.mem_union_left _ hi)
    simp only [hlost, hnone, false_or]
    by_cases hnt : ∀ i ∈ t, f i ≠ nan
    · rw [summit_of_nan hnan, maximum_nan_left, Finset.union_comm,
        summit_eq_greatest_iff hf ht hnt]
    · have hnan' : ∃ i ∈ t, f i = nan := by simpa using hnt
      rw [summit_of_nan hnan, summit_of_nan hnan']
      exact iff_of_false (by simp) fun h => hnt h.1

end Greatest

/-- A fold from zero that ignores every NaN. -/
theorem foldl_maximum (g : Extended → Extended) (xs : List Extended) :
    xs.foldl (fun acc x => maximum acc (g x)) 0 =
      number (greatest (fun i => g (xs[i]?.getD 0)) (Finset.range xs.length)) := by
  induction xs using List.reverseRecOn with
  | nil => rfl
  | append_singleton xs x ih =>
    have hprefix : greatest (fun i => g ((xs ++ [x])[i]?.getD 0)) (Finset.range xs.length) =
        greatest (fun i => g (xs[i]?.getD 0)) (Finset.range xs.length) := by
      unfold greatest
      refine congrArg _ (Finset.sup_congr rfl fun i hi => ?_)
      dsimp only
      rw [List.getElem?_append_left (Finset.mem_range.mp hi)]
    rw [List.foldl_append, ih, List.foldl_cons, List.foldl_nil, maximum_of_number,
      List.length_append, List.length_singleton, Finset.range_add_one, Finset.insert_eq,
      Finset.union_comm, ← max_greatest, hprefix, greatest_singleton,
      List.getElem?_concat_length, Option.getD_some]
    unfold greatest
    rw [max_max_max_comm, max_self, max_assoc]

-- ---------------------------------------------------------------------------
-- Rounding
-- ---------------------------------------------------------------------------

/-- The nearest integer; of two that are equally near, the one away from zero. -/
def roundHalfAway (q : ℚ) : ℤ := if 0 ≤ q then ⌊q + 1 / 2⌋ else ⌈q - 1 / 2⌉

/-- The integer part. -/
def truncate (q : ℚ) : ℤ := if 0 ≤ q then ⌊q⌋ else ⌈q⌉

/-- Rounding to an integral float, which leaves the infinities as they are. -/
def roundTo (f : ℚ → ℤ) : Extended → Extended
  | nan => nan
  | number ⊥ => number ⊥
  | number (q : ℚ) => rat (f q)
  | number ⊤ => number ⊤

theorem roundHalfAway_mono : Monotone roundHalfAway := by
  intro a b hab
  unfold roundHalfAway
  split_ifs with ha hb hb
  · exact Int.floor_le_floor (by linarith)
  · linarith
  · have hnonpos : ⌈a - 1 / 2⌉ ≤ 0 := Int.ceil_le.mpr (by push_cast; linarith)
    have hnonneg : 0 ≤ ⌊b + 1 / 2⌋ := Int.floor_nonneg.mpr (by linarith)
    exact hnonpos.trans hnonneg
  · exact Int.ceil_le_ceil (by linarith)

theorem roundHalfAway_intCast (n : ℤ) : roundHalfAway n = n := by
  unfold roundHalfAway
  split_ifs
  · rw [Int.floor_eq_iff]
    constructor
    · linarith
    · linarith
  · rw [Int.ceil_eq_iff]
    constructor
    · linarith
    · linarith

theorem truncate_intCast (n : ℤ) : truncate n = n := by
  unfold truncate
  rw [Int.floor_intCast, Int.ceil_intCast, ite_self]

theorem coe_mono : Monotone (WithBotTop.coe : ℚ → WithBotTop ℚ) := WithBotTop.coe_monotone

/-- Bounds that are integers can be imposed before rounding or after it. -/
theorem clamp_roundHalfAway {low high : ℤ} (hle : low ≤ high) (x : WithBotTop ℚ) :
    ∃ q : ℚ, low ≤ q ∧ q ≤ high ∧
      min (max x (WithBotTop.coe (low : ℚ))) (WithBotTop.coe (high : ℚ)) = WithBotTop.coe q ∧
      clamp (roundTo roundHalfAway (number x)) (rat low) (rat high) = rat (roundHalfAway q) := by
  have hle' : (low : ℚ) ≤ high := by exact_mod_cast hle
  induction x using WithBotTop.rec with
  | bot =>
    refine ⟨low, le_rfl, hle', ?_, ?_⟩
    · simp [hle']
    · show clamp (number ⊥) (rat low) (rat high) = _
      rw [rat, rat, clamp_number, roundHalfAway_intCast]
      simp [rat, hle']
  | coe q =>
    refine ⟨min (max q low) high, le_min (le_max_right _ _) hle', min_le_right _ _, ?_, ?_⟩
    · rw [coe_mono.map_min, coe_mono.map_max]
    · show clamp (rat (roundHalfAway q)) (rat low) (rat high) = _
      rw [roundHalfAway_mono.map_min, roundHalfAway_mono.map_max, roundHalfAway_intCast,
        roundHalfAway_intCast, Int.cast_min, Int.cast_max, rat, rat, rat, clamp_number, rat,
        coe_mono.map_min, coe_mono.map_max]
  | top =>
    refine ⟨high, hle', le_rfl, ?_, ?_⟩
    · simp
    · show clamp (number ⊤) (rat low) (rat high) = _
      rw [rat, rat, clamp_number, roundHalfAway_intCast]
      simp [rat]

theorem roundHalfAway_of_lt {q : ℚ} (h : q - ⌊q⌋ < 1 / 2) : roundHalfAway q = ⌊q⌋ := by
  have hfloor := Int.floor_le q
  unfold roundHalfAway
  split_ifs
  · rw [Int.floor_eq_iff]
    exact ⟨by linarith, by linarith⟩
  · rw [Int.ceil_eq_iff]
    exact ⟨by linarith, by linarith⟩

theorem roundHalfAway_of_gt {q : ℚ} (h : 1 / 2 < q - ⌊q⌋) : roundHalfAway q = ⌊q⌋ + 1 := by
  have hfloor := Int.lt_floor_add_one q
  unfold roundHalfAway
  split_ifs
  · rw [Int.floor_eq_iff]
    push_cast
    exact ⟨by linarith, by linarith⟩
  · rw [Int.ceil_eq_iff]
    push_cast
    exact ⟨by linarith, by linarith⟩

theorem roundHalfAway_of_eq {q : ℚ} (h : q - ⌊q⌋ = 1 / 2) :
    roundHalfAway q = if q < 0 then ⌊q⌋ else ⌊q⌋ + 1 := by
  unfold roundHalfAway
  rcases lt_or_ge q 0 with hneg | hpos
  · rw [if_neg (not_le.mpr hneg), if_pos hneg, Int.ceil_eq_iff]
    exact ⟨by linarith, by linarith⟩
  · rw [if_pos hpos, if_neg (not_lt.mpr hpos), Int.floor_eq_iff]
    push_cast
    exact ⟨by linarith, by linarith⟩

/-- Ties to even differ from ties away from zero where the nearest even integer is half a
unit towards zero. -/
theorem tie_correction (q : ℚ) :
    (Rounding.roundHalfEven q : ℚ) +
      (if q - Rounding.roundHalfEven q = (if q < 0 then -(1 / 2) else 1 / 2) then
        (if q < 0 then -1 else 1) else 0) = roundHalfAway q := by
  have hfloor := Int.floor_le q
  have hfloor' := Int.lt_floor_add_one q
  unfold Rounding.roundHalfEven
  rcases lt_trichotomy (q - ⌊q⌋) (1 / 2) with h | h | h
  · rw [roundHalfAway_of_lt h, if_pos h, if_neg, add_zero]
    split_ifs
    · linarith
    · linarith
  · rw [roundHalfAway_of_eq h, if_neg h.not_lt, if_neg h.symm.not_lt]
    rcases lt_or_ge q 0 with hneg | hpos
    · rw [if_pos hneg, if_pos hneg, if_pos hneg]
      split_ifs with heven htie htie
      · linarith
      · rw [add_zero]
      · push_cast
        ring
      · push_cast at htie
        exact absurd (by linarith) htie
    · rw [if_neg hpos.not_gt, if_neg hpos.not_gt, if_neg hpos.not_gt]
      split_ifs with _ htie
      · push_cast
        ring
      · push_cast at htie
        linarith
      · rw [add_zero]
  · rw [roundHalfAway_of_gt h, if_neg h.le.not_gt, if_pos h, if_neg, add_zero]
    push_cast
    split_ifs
    · linarith
    · linarith

-- ---------------------------------------------------------------------------
-- Conversions
-- ---------------------------------------------------------------------------

/-- A number rounded by `f` to the nearest integer of `w` bits; a NaN is zero. -/
def toInt (f : ℚ → ℤ) (w : ℕ) : Extended → ℤ
  | nan => 0
  | number ⊥ => -2 ^ (w - 1)
  | number (q : ℚ) => Lanes.saturate w (f q)
  | number ⊤ => 2 ^ (w - 1) - 1

/-- The integer part in `w` bits; what has none is the least integer. -/
def toIntIndefinite (w : ℕ) : Extended → ℤ
  | number (q : ℚ) => if Lanes.InLane w (truncate q) then truncate q else -2 ^ (w - 1)
  | _ => -2 ^ (w - 1)

theorem toInt_rat (f : ℚ → ℤ) {w : ℕ} {q : ℚ} (h : Lanes.InLane w (f q)) :
    toInt f w (rat q) = f q := Lanes.saturate_of_inLane h

theorem toIntIndefinite_intCast {w : ℕ} {n : ℤ} (h : Lanes.InLane w n) :
    toIntIndefinite w (rat n) = n := by
  show (if Lanes.InLane w (truncate n) then truncate n else -2 ^ (w - 1)) = n
  rw [truncate_intCast, if_pos h]

end Extended

end Foundation

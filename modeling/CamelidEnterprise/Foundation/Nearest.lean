import CamelidEnterprise.Foundation.Binary

/-!
# The nearest point of a grid

A format of finitely many numbers is a strictly increasing sequence, and rounding to
nearest picks the place of the sequence that is closest, of two that are equally close
the even one. `NearestEven` says so of a place without computing it:

* `NearestEven.mono` — the nearest place is monotone, and so there is only one;
* `nearestEven_lower`, `nearestEven_upper`, `nearestEven_of_top` — where it is, for a
  number between two neighbours and beyond the last place;
* `nearestEven_shift` — dropping the low bits of a significand, rounded by the bits that
  are dropped, goes to the nearest place.

The magnitudes of a binary format are such a sequence (`Format.place_strictMono`), with
infinity at the place where the next number would be.
-/

namespace Foundation

-- ---------------------------------------------------------------------------
-- Nearest places
-- ---------------------------------------------------------------------------

section Grid

variable {α : Type*} [Field α] [LinearOrder α] [IsStrictOrderedRing α]

/-- The place nearest to `x` of those up to `top`; of two that are equally near, the
even one. -/
structure NearestEven (grid : ℕ → α) (top : ℕ) (x : α) (place : ℕ) : Prop where
  le_top : place ≤ top
  nearest : ∀ other ≤ top, |grid place - x| ≤ |grid other - x|
  even_of_tie : ∀ other ≤ top, other ≠ place → |grid other - x| = |grid place - x| → Even place

variable {grid : ℕ → α} {top : ℕ} {x y : α} {place other : ℕ}

/-- Of two points, the one above is the nearer exactly from the middle on. -/
theorem abs_sub_le_abs_sub_iff {a b : α} (hlt : a < b) : |b - x| ≤ |a - x| ↔ a + b ≤ x + x := by
  constructor
  · intro h
    rcases le_total x a with hx | hx
    · rw [abs_of_nonneg (by linarith), abs_of_nonneg (by linarith)] at h
      linarith
    · rw [abs_of_nonpos (a := a - x) (by linarith)] at h
      linarith [le_abs_self (b - x)]
  · intro h
    rw [abs_of_nonpos (a := a - x) (by linarith), abs_le]
    constructor
    · linarith
    · linarith

/-- A greater number has no smaller place. Where both are the same place's middle, ties
to even decide alike. -/
theorem NearestEven.mono (hgrid : StrictMono grid) (hx : NearestEven grid top x place)
    (hy : NearestEven grid top y other) (hxy : x ≤ y) : place ≤ other := by
  by_contra hlt
  rw [not_le] at hlt
  have hbelow := (abs_sub_le_abs_sub_iff (hgrid hlt)).mp (hx.nearest other hy.le_top)
  have habove : y + y ≤ grid other + grid place := by
    by_contra hfar
    have hnear := hy.nearest place hx.le_top
    have hstrict := (abs_sub_le_abs_sub_iff (x := y) (hgrid hlt)).mpr (by linarith)
    have htie : |grid place - y| = |grid other - y| := le_antisymm hstrict hnear
    rcases abs_eq_abs.mp htie with h | h
    · linarith [hgrid hlt]
    · linarith
  obtain rfl : x = y := by linarith
  have hmiddle : x + x = grid other + grid place := by linarith
  have htie : |grid other - x| = |grid place - x| := by
    rw [show grid other - x = -(grid place - x) by linarith, abs_neg]
  obtain ⟨a, ha⟩ := hx.even_of_tie other hy.le_top hlt.ne htie
  obtain ⟨b, hb⟩ := hy.even_of_tie place hx.le_top hlt.ne' htie.symm
  -- two even places have one between them, and that one is nearer
  have hbetween : other + 1 < place := by omega
  have hlow := hgrid (Nat.lt_succ_self other)
  have hhigh := hgrid hbetween
  have hnearest := hx.nearest (other + 1) (by have := hx.le_top; omega)
  rw [abs_of_nonneg (a := grid place - x) (by linarith)] at hnearest
  rcases abs_cases (grid (other + 1) - x) with ⟨habs, -⟩ | ⟨habs, -⟩
  · rw [habs] at hnearest
    linarith
  · rw [habs] at hnearest
    have hlow' : grid other < grid (other + 1) := hlow
    linarith

theorem NearestEven.unique (hgrid : StrictMono grid) (hplace : NearestEven grid top x place)
    (hother : NearestEven grid top x other) : place = other :=
  le_antisymm (hplace.mono hgrid hother le_rfl) (hother.mono hgrid hplace le_rfl)

/-- Beyond the last place it is the nearest. -/
theorem nearestEven_of_top (hgrid : StrictMono grid) (h : grid top ≤ x) :
    NearestEven grid top x top := by
  refine ⟨le_rfl, ?_, ?_⟩
  · intro other hother
    have hle := hgrid.monotone hother
    rw [abs_of_nonpos (by linarith), abs_of_nonpos (by linarith)]
    linarith
  · intro other hother hne htie
    have hlt := hgrid (lt_of_le_of_ne hother hne)
    rw [abs_of_nonpos (by linarith), abs_of_nonpos (by linarith)] at htie
    linarith

/-- The lower of two neighbours, no farther from `x` than the other one. -/
theorem nearestEven_lower (hgrid : StrictMono grid) (hle : place ≤ top) (hlow : grid place ≤ x)
    (hnear : x + x ≤ grid place + grid (place + 1))
    (htie : x + x = grid place + grid (place + 1) → Even place) : NearestEven grid top x place := by
  have hdistance : |grid place - x| = x - grid place := by
    rw [abs_of_nonpos (by linarith)]
    ring
  have hcases : ∀ other, other ≠ place → grid other < grid place ∨ grid (place + 1) ≤ grid other := by
    intro other hne
    rcases Nat.lt_or_gt_of_ne hne with hlt | hgt
    · exact .inl (hgrid hlt)
    · exact .inr (hgrid.monotone hgt)
  refine ⟨hle, ?_, ?_⟩
  · intro other _
    by_cases hne : other = place
    · rw [hne]
    rw [hdistance]
    rcases hcases other hne with hlt | hge
    · linarith [neg_le_abs (grid other - x)]
    · linarith [le_abs_self (grid other - x)]
  · intro other _ hne heq
    rw [hdistance] at heq
    rcases hcases other hne with hlt | hge
    · linarith [neg_le_abs (grid other - x)]
    · exact htie (by linarith [le_abs_self (grid other - x)])

/-- The upper of two neighbours, no farther from `x` than the other one. -/
theorem nearestEven_upper (hgrid : StrictMono grid) (hle : place + 1 ≤ top)
    (hhigh : x ≤ grid (place + 1)) (hnear : grid place + grid (place + 1) ≤ x + x)
    (htie : x + x = grid place + grid (place + 1) → Even (place + 1)) :
    NearestEven grid top x (place + 1) := by
  have hdistance : |grid (place + 1) - x| = grid (place + 1) - x := abs_of_nonneg (by linarith)
  have hcases : ∀ other, other ≠ place + 1 → grid other ≤ grid place ∨
      grid (place + 1) < grid other := by
    intro other hne
    rcases Nat.lt_or_gt_of_ne hne with hlt | hgt
    · exact .inl (hgrid.monotone (Nat.lt_succ_iff.mp hlt))
    · exact .inr (hgrid hgt)
  refine ⟨hle, ?_, ?_⟩
  · intro other _
    by_cases hne : other = place + 1
    · rw [hne]
    rw [hdistance]
    rcases hcases other hne with hle | hgt
    · linarith [neg_le_abs (grid other - x)]
    · linarith [le_abs_self (grid other - x)]
  · intro other _ hne heq
    rw [hdistance] at heq
    rcases hcases other hne with hle | hgt
    · exact htie (by linarith [neg_le_abs (grid other - x)])
    · linarith [le_abs_self (grid other - x)]

theorem nearestEven_self (hgrid : StrictMono grid) (hle : place ≤ top) :
    NearestEven grid top (grid place) place := by
  have hlt := hgrid (Nat.lt_succ_self place)
  have hlt' : grid place < grid (place + 1) := hlt
  exact nearestEven_lower hgrid hle le_rfl (by linarith) fun h => by linarith

end Grid

-- ---------------------------------------------------------------------------
-- Significands
-- ---------------------------------------------------------------------------

/-- The bits below the last kept one make the significand round up: they are more than
half of it, or half of it and it is odd. -/
def roundsUp (m shift : ℕ) : Prop :=
  2 ^ (shift - 1) < m % 2 ^ shift ∨ (m % 2 ^ shift = 2 ^ (shift - 1) ∧ m / 2 ^ shift % 2 = 1)

instance (m shift : ℕ) : Decidable (roundsUp m shift) := by
  unfold roundsUp
  infer_instance

/-- The significand without its last `shift` bits, to nearest, ties to even. -/
def shiftHalfEven (m shift : ℕ) : ℕ :=
  m / 2 ^ shift + if roundsUp m shift then 1 else 0

/-- The same by the first bit that is dropped and whether any other is set. -/
theorem roundsUp_iff_guard {m shift : ℕ} (h : 0 < shift) :
    roundsUp m shift ↔ m / 2 ^ (shift - 1) % 2 = 1 ∧
      (m % 2 ^ (shift - 1) ≠ 0 ∨ m / 2 ^ shift % 2 = 1) := by
  obtain ⟨t, rfl⟩ : ∃ t, shift = t + 1 := ⟨shift - 1, by omega⟩
  have hrest : m % 2 ^ t < 2 ^ t := Nat.mod_lt _ (Nat.two_pow_pos t)
  unfold roundsUp
  rw [Nat.add_sub_cancel, Nat.mod_pow_succ]
  rcases Nat.mod_two_eq_zero_or_one (m / 2 ^ t) with hguard | hguard
  · rw [hguard]
    omega
  · rw [hguard]
    omega

theorem shiftHalfEven_le (m shift : ℕ) : shiftHalfEven m shift ≤ m / 2 ^ shift + 1 := by
  unfold shiftHalfEven
  split
  · exact le_rfl
  · exact Nat.le_add_right _ _

/-- A significand that loses its last bits goes to the nearest place, where the bits that
are kept number the places in steps of one unit. -/
theorem nearestEven_shift {α : Type*} [Field α] [LinearOrder α] [IsStrictOrderedRing α]
    {grid : ℕ → α} {top place m shift : ℕ} {unit : α} (hgrid : StrictMono grid) (hunit : 0 < unit)
    (hshift : 0 < shift) (htop : place + 1 ≤ top) (hparity : place % 2 = m / 2 ^ shift % 2)
    (hlow : grid place = ((m / 2 ^ shift : ℕ) * 2 ^ shift : ℕ) * unit)
    (hhigh : grid (place + 1) = ((m / 2 ^ shift + 1 : ℕ) * 2 ^ shift : ℕ) * unit) :
    NearestEven grid top (m * unit) (place + if roundsUp m shift then 1 else 0) := by
  obtain ⟨t, rfl⟩ : ∃ t, shift = t + 1 := ⟨shift - 1, by omega⟩
  have hpow : 2 ^ (t + 1) = 2 * 2 ^ t := by ring
  have hsplit : m = m / 2 ^ (t + 1) * 2 ^ (t + 1) + m % 2 ^ (t + 1) :=
    (Nat.div_add_mod' m (2 ^ (t + 1))).symm
  have hrest : m % 2 ^ (t + 1) < 2 * 2 ^ t := hpow ▸ Nat.mod_lt m (Nat.two_pow_pos (t + 1))
  have hrounds : roundsUp m (t + 1) ↔ 2 ^ t < m % 2 ^ (t + 1) ∨
      (m % 2 ^ (t + 1) = 2 ^ t ∧ m / 2 ^ (t + 1) % 2 = 1) := by
    unfold roundsUp
    rw [Nat.add_sub_cancel]
  -- from here on the value is `place` and `rest` units, of the `2 * 2 ^ t` up to the next place
  generalize m / 2 ^ (t + 1) = q at *
  generalize m % 2 ^ (t + 1) = rest at *
  have hx : (m : α) * unit = grid place + rest * unit := by
    rw [hlow, ← add_mul, ← Nat.cast_add, ← hsplit]
  have hstep : grid (place + 1) = grid place + 2 * (2 ^ t : ℕ) * unit := by
    rw [hlow, hhigh, hpow]
    push_cast
    ring
  have hle : ∀ a b : ℕ, a ≤ b ↔ (a : α) * unit ≤ b * unit := by
    intro a b
    rw [mul_le_mul_iff_left₀ hunit, Nat.cast_le]
  split
  · rename_i hup
    rw [hrounds] at hup
    have hhalf : 2 ^ t ≤ rest := by omega
    refine nearestEven_upper hgrid htop ?_ ?_ ?_
    · have := (hle rest (2 * 2 ^ t)).mp hrest.le
      rw [hx, hstep]
      push_cast at this ⊢
      linarith
    · have := (hle _ _).mp hhalf
      rw [hx, hstep]
      linarith
    · intro htie
      have hrest : rest ≤ 2 ^ t := by
        rw [hle]
        rw [hx, hstep] at htie
        linarith
      exact Nat.even_iff.mpr (by omega)
  · rename_i hdown
    rw [hrounds] at hdown
    have hhalf : rest ≤ 2 ^ t := by omega
    have hrest := (hle _ _).mp hhalf
    rw [Nat.add_zero]
    refine nearestEven_lower hgrid (by omega) ?_ ?_ ?_
    · have := (hle 0 rest).mp (Nat.zero_le _)
      rw [hx]
      rw [Nat.cast_zero, zero_mul] at this
      linarith
    · rw [hx, hstep]
      linarith
    · intro htie
      have hhalf : 2 ^ t ≤ rest := by
        rw [hle]
        rw [hx, hstep] at htie
        linarith
      exact Nat.even_iff.mpr (by omega)

-- ---------------------------------------------------------------------------
-- The places of a format
-- ---------------------------------------------------------------------------

namespace Format

def half : Format := ⟨10, 5⟩

/-- The number a magnitude stands for; infinity is where the next number would be. -/
def place (fmt : Format) (magnitude : ℕ) : ℚ :=
  (fmt.significand magnitude).1 * 2 ^ (fmt.significand magnitude).2

/-- The step from a magnitude to the next one. -/
def ulp (fmt : Format) (magnitude : ℕ) : ℚ :=
  2 ^ (fmt.minExponent + (magnitude / 2 ^ fmt.mantissaBits - 1 : ℕ))

theorem ulp_pos (fmt : Format) (magnitude : ℕ) : 0 < fmt.ulp magnitude := zpow_pos (by norm_num) _

theorem place_nonneg (fmt : Format) (magnitude : ℕ) : 0 ≤ fmt.place magnitude :=
  mul_nonneg (Nat.cast_nonneg _) (zpow_pos (by norm_num) _).le

/-- A magnitude by its fields. -/
theorem place_fields (fmt : Format) (exponent : ℕ) {mantissa : ℕ}
    (h : mantissa < 2 ^ fmt.mantissaBits) :
    fmt.place (exponent * 2 ^ fmt.mantissaBits + mantissa) =
      (mantissa + if exponent = 0 then 0 else 2 ^ fmt.mantissaBits : ℕ) *
        2 ^ (fmt.minExponent + (exponent - 1 : ℕ)) := by
  have hdiv : (exponent * 2 ^ fmt.mantissaBits + mantissa) / 2 ^ fmt.mantissaBits = exponent := by
    rw [Nat.add_comm, Nat.add_mul_div_right _ _ (Nat.two_pow_pos _), Nat.div_eq_of_lt h,
      Nat.zero_add]
  have hmod : (exponent * 2 ^ fmt.mantissaBits + mantissa) % 2 ^ fmt.mantissaBits = mantissa := by
    rw [Nat.add_comm, Nat.add_mul_mod_self_right, Nat.mod_eq_of_lt h]
  unfold place significand
  rw [hdiv, hmod]
  by_cases hzero : exponent = 0
  · simp [hzero]
  · simp only [if_neg hzero]
    rw [show fmt.minExponent + (exponent : ℤ) - 1 = fmt.minExponent + ((exponent - 1 : ℕ) : ℤ) by
      omega]

theorem place_succ (fmt : Format) (magnitude : ℕ) :
    fmt.place (magnitude + 1) = fmt.place magnitude + fmt.ulp magnitude := by
  have hsplit := Nat.div_add_mod' magnitude (2 ^ fmt.mantissaBits)
  have hlt : magnitude % 2 ^ fmt.mantissaBits < 2 ^ fmt.mantissaBits :=
    Nat.mod_lt _ (Nat.two_pow_pos _)
  unfold ulp
  generalize magnitude / 2 ^ fmt.mantissaBits = exponent at *
  generalize magnitude % 2 ^ fmt.mantissaBits = mantissa at *
  rw [← hsplit, place_fields fmt exponent hlt]
  by_cases hcarry : mantissa + 1 < 2 ^ fmt.mantissaBits
  · rw [Nat.add_assoc, place_fields fmt exponent hcarry]
    push_cast
    ring
  · -- the mantissa starts again from zero, one exponent higher
    have hfull : mantissa + 1 = 2 ^ fmt.mantissaBits := by omega
    have hnext : exponent * 2 ^ fmt.mantissaBits + mantissa + 1 =
        (exponent + 1) * 2 ^ fmt.mantissaBits + 0 := by
      rw [Nat.add_assoc, hfull]
      ring
    rw [hnext, place_fields fmt (exponent + 1) (Nat.two_pow_pos _), if_neg (Nat.succ_ne_zero _),
      ← hfull, Nat.add_sub_cancel]
    by_cases hzero : exponent = 0
    · rw [if_pos hzero, hzero]
      push_cast
      ring
    · have hpow : (2 : ℚ) ^ (fmt.minExponent + (exponent : ℤ)) =
          2 * 2 ^ (fmt.minExponent + ((exponent - 1 : ℕ) : ℤ)) := by
        rw [← zpow_one_add₀ (by norm_num)]
        congr 1
        omega
      rw [if_neg hzero, hpow]
      push_cast
      ring

theorem place_strictMono (fmt : Format) : StrictMono fmt.place := by
  refine strictMono_nat_of_lt_succ ?_
  intro magnitude
  rw [place_succ]
  linarith [fmt.ulp_pos magnitude]

-- ---------------------------------------------------------------------------
-- Conversions
-- ---------------------------------------------------------------------------

/-- The word of a number converted to nearest, ties to even. The sign is kept; where the
other format ends is infinity; and a NaN becomes a quiet one. -/
structure Rounds (source target : Format) (word word' : ℕ) : Prop where
  sign : target.isNegative word' = source.isNegative word
  nearest : source.magnitude word ≤ source.infinity →
    NearestEven target.place target.infinity (source.place (source.magnitude word))
      (target.magnitude word')
  nan : source.infinity < source.magnitude word → target.infinity < target.magnitude word' ∧
    target.magnitude word' / 2 ^ (target.mantissaBits - 1) % 2 = 1

/-- A magnitude of another format that stands for the same. -/
structure Exact (source target : Format) (magnitude magnitude' : ℕ) : Prop where
  finite : magnitude < source.infinity →
    magnitude' < target.infinity ∧ target.place magnitude' = source.place magnitude
  infinite : magnitude = source.infinity → magnitude' = target.infinity

/-- The word of a number in a format that has it. A NaN becomes quiet and keeps its
payload, in the leading bits. -/
structure Widens (source target : Format) (word word' : ℕ) : Prop where
  sign : target.isNegative word' = source.isNegative word
  exact_magnitude : source.magnitude word ≤ source.infinity →
    Exact source target (source.magnitude word) (target.magnitude word')
  nan : source.infinity < source.magnitude word → target.magnitude word' = target.infinity +
    (2 ^ (target.mantissaBits - 1) ||| source.magnitude word % 2 ^ source.mantissaBits *
      2 ^ (target.mantissaBits - source.mantissaBits))

theorem infinity_lt_signBit (fmt : Format) : fmt.infinity < fmt.signBit := by
  unfold infinity signBit
  rw [Nat.add_comm, Nat.pow_add]
  exact Nat.mul_lt_mul_of_pos_right (Nat.sub_lt (Nat.two_pow_pos _) one_pos) (Nat.two_pow_pos _)

/-- A word by its fields. -/
theorem magnitude_fields (fmt : Format) (s : ℕ) {m : ℕ} (hm : m < fmt.signBit) :
    fmt.magnitude (s * fmt.signBit + m) = m := by
  unfold magnitude
  rw [Nat.add_comm, Nat.add_mul_mod_self_right, Nat.mod_eq_of_lt hm]

/-- The sign of a word that takes over the first field of another one. -/
theorem isNegative_fields (source target : Format) (word : ℕ) {m : ℕ} (hm : m < target.signBit) :
    target.isNegative (word / source.signBit * target.signBit + m) = source.isNegative word := by
  have hpos : 0 < target.signBit := Nat.two_pow_pos _
  unfold isNegative
  rw [Nat.add_comm, Nat.add_mul_div_right _ _ hpos, Nat.div_eq_of_lt hm, Nat.zero_add]

variable {source target : Format}

theorem Exact.le_infinity {magnitude magnitude' : ℕ} (h : Exact source target magnitude magnitude')
    (hle : magnitude ≤ source.infinity) : magnitude' ≤ target.infinity := by
  rcases Nat.lt_or_eq_of_le hle with hlt | heq
  · exact (h.finite hlt).1.le
  · exact (h.infinite heq).le

theorem Exact.mono {a b a' b' : ℕ} (ha : Exact source target a a') (hb : Exact source target b b')
    (hab : a ≤ b) (hle : b ≤ source.infinity) : a' ≤ b' := by
  rcases Nat.lt_or_eq_of_le hle with hlt | heq
  · rw [← target.place_strictMono.le_iff_le, (ha.finite (by omega)).2, (hb.finite hlt).2]
    exact source.place_strictMono.monotone hab
  · rw [hb.infinite heq]
    exact ha.le_infinity (hab.trans hle)

/-- What is exact is its own nearest, also where both are infinite. -/
theorem Exact.nearest {a a' : ℕ} (h : Exact source target a a') (hle : a ≤ source.infinity)
    (hends : source.place source.infinity ≤ target.place target.infinity) :
    NearestEven source.place source.infinity (target.place a') a := by
  rcases Nat.lt_or_eq_of_le hle with hlt | heq
  · rw [(h.finite hlt).2]
    exact nearestEven_self source.place_strictMono hle
  · rw [h.infinite heq, heq]
    exact nearestEven_of_top source.place_strictMono hends

end Format

end Foundation

import CamelidEnterprise.Engine.KQuantLayout

/-!
# Camelid Enterprise — the elements of a K-quant block

`dequantize` of the six formats returns, whatever the buffer held before, the vector whose
element `i` is made of the code of `i` and of the scale and the min of the sub-block that
contains `i`. Its loops are followed by what they have written so far; on the way no index
leaves its array, no shift its operand and no sum or difference its type.

`kquant_unpacking` puts this beside `bijOn_fields`.
-/

namespace CamelidEnterprise

open Foundation Foundation.Buffer Foundation.Bits

-- ---------------------------------------------------------------------------
-- Machine arithmetic
-- ---------------------------------------------------------------------------

theorem shrU8_of_lt (value : UInt8) {shift : Nat} (h : shift < 8) :
    shrU8 value shift = .ok (value >>> .ofNat shift) := if_pos h

theorem shrU16_of_lt (value : UInt16) {shift : Nat} (h : shift < 16) :
    shrU16 value shift = .ok (value >>> .ofNat shift) := if_pos h

/-- A difference that stays in its type is the difference of the integers. -/
theorem subI8_returns {lhs rhs : Int8} (hlow : -128 ≤ lhs.toInt - rhs.toInt)
    (hhigh : lhs.toInt - rhs.toInt < 128) :
    (subI8 lhs rhs).Returns fun value => value.toInt = lhs.toInt - rhs.toInt := by
  refine ⟨lhs - rhs, if_pos ⟨hlow, hhigh⟩, ?_⟩
  show (lhs - rhs).toInt = _
  rw [Int8.toInt_sub]
  exact Int.bmod_eq_of_le (by omega) (by omega)

theorem addU8_returns {lhs rhs : UInt8} (h : lhs.toNat + rhs.toNat < 256) :
    (addU8 lhs rhs).Returns fun value => value.toNat = lhs.toNat + rhs.toNat := by
  refine ⟨lhs + rhs, if_pos h, ?_⟩
  show (lhs + rhs).toNat = _
  rw [UInt8.toNat_add, Nat.mod_eq_of_lt h]

/-- The fast path converts as the general one does. -/
theorem fastF16ToF32_eq (bits : UInt16) : fastF16ToF32 bits = f16BitsToF32 bits := by
  have hten : (10 : UInt32).toNat % 32 = 10 := by decide
  have hten' : (10 : UInt16).toNat % 16 = 10 := by decide
  have hexponent : (bits &&& 0x7c00).toUInt32 >>> 10 = ((bits &&& 0x7c00) >>> 10).toUInt32 := by
    rw [← UInt32.toNat_inj, UInt32.toNat_shiftRight, UInt16.toNat_toUInt32, UInt16.toNat_toUInt32,
      UInt16.toNat_shiftRight, hten, hten']
  have hzero : ∀ exp : UInt16, exp.toUInt32 = 0 ↔ exp = 0 := by
    intro exp
    rw [← UInt32.toNat_inj, UInt16.toNat_toUInt32, ← UInt16.toNat_inj]
    rfl
  have hlast : ∀ exp : UInt16, exp.toUInt32 = 0x1f ↔ exp = 0x1f := by
    intro exp
    rw [← UInt32.toNat_inj, UInt16.toNat_toUInt32, ← UInt16.toNat_inj]
    rfl
  unfold fastF16ToF32 f16BitsToF32
  dsimp only
  rw [hexponent]
  simp only [hzero, hlast]
  by_cases h : (bits &&& 0x7c00) >>> 10 = 0
  · rw [if_pos h, if_pos h]
    by_cases hfrac : bits &&& 0x03ff = 0
    · rw [if_pos hfrac, if_pos hfrac]
    · rw [if_neg hfrac]
  · rw [if_neg h, if_neg h]
    by_cases hend : (bits &&& 0x7c00) >>> 10 = 0x1f
    · rw [if_pos hend, if_pos hend]
    · rw [if_neg hend, if_neg hend]

-- ---------------------------------------------------------------------------
-- Elements
-- ---------------------------------------------------------------------------

/-- The sub-block that contains an element; each has as many. -/
def subBlock (n : Nat) [NeZero n] (element : Fin 256) : Fin n := Fin.ofNat n (element / (256 / n))

theorem subBlock_sixteen (element : Fin 256) : (subBlock 16 element).val = element / 16 := by
  show element.val / 16 % 16 = _
  omega

theorem subBlock_eight (element : Fin 256) : (subBlock 8 element).val = element / 32 := by
  show element.val / 32 % 8 = _
  omega

variable [FloatOps]

section Elements

variable {n : Nat} [NeZero n]

/-- The scaled code of an element. -/
def scaledValue (fields : ScaleField n → Int) (value : Int → F32) (element : Fin 256) : F32 :=
  f16BitsToF32 (.ofNat (fields .scaleBits).toNat) *
    F32.ofInt (fields (.scale (subBlock n element))) * value (fields (.code element))

/-- The scaled code of an element over the min of its sub-block. -/
def offsetValue (fields : ScaleField n ⊕ MinField n → Int) (element : Fin 256) : F32 :=
  scaledValue (fun field => fields (.inl field)) F32.ofInt element -
    f16BitsToF32 (.ofNat (fields (.inr .minBits)).toNat) *
      F32.ofInt (fields (.inr (.min (subBlock n element))))

/-- The value of an element by the numbers at each index. -/
theorem scaledValue_values (scaleBits : UInt16) (scale code : Nat → Int) (value : Int → F32)
    (element : Fin 256) :
    scaledValue (ScaleField.values scaleBits scale code : ScaleField n → Int) value element =
      f16BitsToF32 scaleBits * F32.ofInt (scale (subBlock n element)) * value (code element) := by
  unfold scaledValue ScaleField.values
  dsimp only
  rw [Int.toNat_natCast, UInt16.ofNat_toNat]

theorem offsetValue_values (scaleBits minBits : UInt16) (scale code min : Nat → Int)
    (element : Fin 256) :
    offsetValue (Sum.elim (ScaleField.values scaleBits scale code) (MinField.values minBits min) :
        ScaleField n ⊕ MinField n → Int) element =
      f16BitsToF32 scaleBits * F32.ofInt (scale (subBlock n element)) * F32.ofInt (code element) -
        f16BitsToF32 minBits * F32.ofInt (min (subBlock n element)) := by
  unfold offsetValue
  have hscaled := scaledValue_values (n := n) scaleBits scale code F32.ofInt element
  unfold MinField.values
  dsimp only [Sum.elim_inl, Sum.elim_inr]
  rw [Int.toNat_natCast, UInt16.ofNat_toNat]
  exact congrArg (· - _) hscaled

end Elements

-- ---------------------------------------------------------------------------
-- The loops of Q2_K and Q3_K
-- ---------------------------------------------------------------------------

section Groups

variable {out : Vector F32 256}

omit [FloatOps] in
theorem fillSubBlock_returns {value : Nat → F32} {done : Nat → Prop} {start : Nat}
    {element : Nat → EngineResult F32}
    (hout : Written value done out) (hstart : start + 16 ≤ 256)
    (helement : ∀ l < 16, element l = .ok (value (start + l))) :
    (fillSubBlock start element out).Returns
      (Written value fun i => done i ∨ (start ≤ i ∧ i < start + 16)) := by
  refine Outcome.returns_foldlM_range
    (fun l => Written value fun i => done i ∨ (start ≤ i ∧ i < start + l)) ?_ ?_
  · exact hout.mono fun i h => h.resolve_right (by omega)
  · intro l hl out hout
    have hlt : start + l < 256 := by omega
    rw [helement l hl, Outcome.ok_bind, store_of_lt out hlt]
    refine Outcome.returns_ok ((hout.set hlt).mono fun i h => ?_)
    by_cases heq : i = start + l
    · exact .inr heq
    · exact .inl (h.imp_right fun h => by omega)

omit [FloatOps] in
/-- The loops write every element, when each sub-block gives its own. `good g` is what
holds of the state in group `g`. -/
theorem dequantizeGroups_eq {τ : Type} {next : τ → τ}
    {subBlock : (scaleIdx valueBase offset shift : Nat) → τ → EngineResult (Nat → EngineResult F32)}
    {start : τ} (value : Nat → F32) (good : Nat → τ → Prop) (hstart : good 0 start)
    (hnext : ∀ g < 8, ∀ state, good g state → good (g + 1) (next state))
    (helement : ∀ g < 8, ∀ state, good g state → ∀ half < 2,
      (subBlock (2 * g + half) (g / 4 * 32) (16 * half) (g % 4 * 2) state).Returns fun element =>
        ∀ l < 16, element l = .ok (value (32 * g + 16 * half + l))) :
    dequantizeGroups next subBlock start out = .ok (Vector.ofFn fun i => value i) := by
  -- the invariant of either loop: what is written, and where the counters stand
  refine Outcome.Returns.eq_ok (Outcome.Returns.bind (Outcome.returns_foldlM_range
    (fun superIdx (s : Vector F32 256 × Nat × τ) => Written value (· < 128 * superIdx) s.1 ∧
      s.2.1 = 8 * superIdx ∧ good (4 * superIdx) s.2.2)
    ⟨(written_none value out).mono fun i h => by omega, rfl, hstart⟩ ?_) ?_)
  · rintro superIdx hsuper ⟨out, _, state⟩ ⟨hout, rfl, hstate⟩
    refine Outcome.Returns.bind (Outcome.returns_foldlM_range
      (fun groupIdx (s : Vector F32 256 × Nat × τ × Nat) =>
        Written value (· < 128 * superIdx + 32 * groupIdx) s.1 ∧
          s.2.1 = 8 * superIdx + 2 * groupIdx ∧ good (4 * superIdx + groupIdx) s.2.2.1 ∧
            s.2.2.2 = groupIdx * 2)
      ⟨hout, rfl, hstate, rfl⟩ ?_) ?_
    · rintro groupIdx hgroup ⟨out, _, state, _⟩ ⟨hout, rfl, hstate, rfl⟩
      have hlt : 4 * superIdx + groupIdx < 8 := by omega
      have hlow := helement _ hlt state hstate 0 (by decide)
      have hhigh := helement _ hlt state hstate 1 (by decide)
      rw [show 2 * (4 * superIdx + groupIdx) + 0 = 8 * superIdx + 2 * groupIdx by omega,
        show (4 * superIdx + groupIdx) / 4 = superIdx by omega,
        show (4 * superIdx + groupIdx) % 4 = groupIdx by omega] at hlow
      rw [show 2 * (4 * superIdx + groupIdx) + 1 = 8 * superIdx + 2 * groupIdx + 1 by omega,
        show (4 * superIdx + groupIdx) / 4 = superIdx by omega,
        show (4 * superIdx + groupIdx) % 4 = groupIdx by omega] at hhigh
      refine hlow.bind fun element helement => ?_
      refine (fillSubBlock_returns hout (by omega) fun l hl => ?_).bind fun out hout => ?_
      · rw [helement l hl]
        congr 2
        omega
      refine hhigh.bind fun element helement => ?_
      refine (fillSubBlock_returns hout (by omega) fun l hl => ?_).bind fun out hout => ?_
      · rw [helement l hl]
        congr 2
        omega
      refine Outcome.returns_ok ⟨hout.mono fun i h => ?_, ?_, hnext _ hlt state hstate, ?_⟩
      · by_cases hlast : superIdx * 128 + groupIdx * 32 + 16 ≤ i
        · exact .inr ⟨hlast, by omega⟩
        · by_cases hfirst : superIdx * 128 + groupIdx * 32 ≤ i
          · exact .inl (.inr ⟨hfirst, by omega⟩)
          · exact .inl (.inl (by omega))
      · dsimp only
        omega
      · dsimp only
        omega
    · rintro ⟨out, _, state, _⟩ ⟨hout, rfl, hstate, rfl⟩
      refine Outcome.returns_ok ⟨hout.mono fun i h => ?_, ?_, hstate⟩
      · omega
      · dsimp only
        omega
  · rintro ⟨out, _, state⟩ ⟨hout, -, -⟩
    exact Outcome.returns_ok (hout.eq_ofFn fun i hi => hi)

end Groups

theorem Q2KBlock.dequantize_eq (block : Q2KBlock) (out : Vector F32 256) :
    block.dequantize out = .ok (Vector.ofFn (offsetValue block.fields)) := by
  refine (dequantizeGroups_eq
    (fun j => f16BitsToF32 block.scaleBits * F32.ofInt (block.scale (j / 16)) *
      F32.ofInt (block.code j) - f16BitsToF32 block.minBits * F32.ofInt (block.min (j / 16)))
    (fun _ _ => True) trivial (fun _ _ _ _ => trivial) ?_).trans ?_
  · intro g hg _ _ half hhalf
    unfold Q2KBlock.subBlock
    rw [index_of_lt _ (show 2 * g + half < 16 by omega), Outcome.ok_bind]
    refine Outcome.returns_ok fun l hl => ?_
    have hscale : (32 * g + 16 * half + l) / 16 = 2 * g + half := by omega
    have hbyte : (32 * g + 16 * half + l) / 128 * 32 + (32 * g + 16 * half + l) % 32 =
        g / 4 * 32 + 16 * half + l := by omega
    have hshift : (32 * g + 16 * half + l) % 128 / 32 = g % 4 := by omega
    rw [index_of_lt _ (show g / 4 * 32 + 16 * half + l < 64 by omega), Outcome.ok_bind,
      shrU8_of_lt _ (by omega), Outcome.ok_bind, hscale]
    unfold Q2KBlock.scale Q2KBlock.min Q2KBlock.code Q2KBlock.scaleF32 Q2KBlock.minF32
    rw [hbyte, hshift, fastF16ToF32_eq, fastF16ToF32_eq]
  · congr 2
    funext element
    unfold Q2KBlock.fields
    rw [offsetValue_values, subBlock_sixteen]

/-- The masks of the high bits, one bit up in each group. -/
theorem Q3KBlock.dequantize_eq (block : Q3KBlock) (out : Vector F32 256) :
    block.dequantize out = .ok (Vector.ofFn (scaledValue block.fields F32.ofInt)) := by
  refine (dequantizeGroups_eq
    (fun j => f16BitsToF32 block.scaleBits * F32.ofInt (block.scale (j / 16)) *
      F32.ofInt (block.code j))
    (fun g mask => g < 8 → mask.toNat = 2 ^ g) (fun _ => rfl) ?_ ?_).trans ?_
  · intro g _ mask hmask hlt
    exact toNat_bit_shiftLeft (hmask (by omega)) rfl hlt
  · intro g hg mask hmask half hhalf
    have hidx : 2 * g + half < 16 := by omega
    have hbounds := block.scale_bounds hidx
    have hbit := hmask hg
    unfold Q3KBlock.scale at hbounds
    unfold Q3KBlock.subBlock
    rw [index_of_lt _ hidx, Outcome.ok_bind]
    have hbias : (32 : Int8).toInt = 32 := rfl
    refine Outcome.Returns.bind (subI8_returns (by omega) (by omega)) fun scale hscale => ?_
    refine Outcome.returns_ok fun l hl => Outcome.Returns.eq_ok ?_
    have hscaleIdx : (32 * g + 16 * half + l) / 16 = 2 * g + half := by omega
    have hhigh : (32 * g + 16 * half + l) % 32 = 16 * half + l := by omega
    have hbyte : (32 * g + 16 * half + l) / 128 * 32 + (16 * half + l) =
        g / 4 * 32 + 16 * half + l := by omega
    have hshift : (32 * g + 16 * half + l) % 128 / 32 = g % 4 := by omega
    have hgroup : (32 * g + 16 * half + l) / 32 = g := by omega
    rw [index_of_lt _ (show 16 * half + l < 32 by omega), Outcome.ok_bind,
      index_of_lt _ (show g / 4 * 32 + 16 * half + l < 64 by omega), Outcome.ok_bind,
      shrU8_of_lt _ (by omega), Outcome.ok_bind]
    have hlow : ((peek block.values (g / 4 * 32 + 16 * half + l) >>> UInt8.ofNat (g % 4 * 2)) &&&
        3).toNat < 4 := by
      rw [@toNat_and_mask _ _ 2 rfl]
      exact Nat.mod_lt _ (by decide)
    have hcrumb := toInt_toInt8_of_lt (hlow.trans (by decide))
    have hsign : (if peek block.highBits (16 * half + l) &&& mask ≠ 0 then 0 else 4 : Int8).toInt =
        if (peek block.highBits (16 * half + l)).toNat.testBit g then 0 else 4 := by
      simp only [and_bit_ne_zero_iff _ hbit]
      split
      · rfl
      · rfl
    have hbound : 0 ≤ (if peek block.highBits (16 * half + l) &&& mask ≠ 0 then 0 else 4 : Int8).toInt ∧
        (if peek block.highBits (16 * half + l) &&& mask ≠ 0 then 0 else 4 : Int8).toInt ≤ 4 := by
      split
      · decide
      · decide
    refine Outcome.Returns.bind (subI8_returns (by omega) (by omega)) fun code hcode => ?_
    refine Outcome.returns_ok ?_
    unfold Q3KBlock.scale Q3KBlock.code Q3KBlock.scaleF32
    rw [hscaleIdx, hhigh, hbyte, hshift, hgroup, hcode, hscale, hcrumb, hsign, hbias, fastF16ToF32_eq]
  · congr 2
    funext element
    unfold Q3KBlock.fields
    rw [scaledValue_values, subBlock_sixteen]

-- ---------------------------------------------------------------------------
-- The loops of Q4_K and Q5_K
-- ---------------------------------------------------------------------------

omit [FloatOps] in
theorem q4KScaleMin_eq {idx : Nat} (scales : Vector UInt8 12) (h : idx < 8) :
    q4KScaleMin idx scales = .ok (kScaleMin scales idx) := by
  unfold q4KScaleMin kScaleMin
  by_cases hfour : idx < 4
  · rw [if_pos hfour, if_pos hfour, index_of_lt _ (by omega), Outcome.ok_bind, index_of_lt _ (by omega),
      Outcome.ok_bind]
  · rw [if_neg hfour, if_neg hfour, index_of_lt _ (by omega), Outcome.ok_bind,
      index_of_lt _ (by omega), Outcome.ok_bind, index_of_lt _ (by omega), Outcome.ok_bind]

/-- The loops write every element, when `codes` gives the two of each byte. `good p` is
what holds of the state in pair `p`. -/
theorem dequantizePairs_eq {τ : Type} {next : τ → τ} {d dMin : F32} {scales : Vector UInt8 12}
    {codes : (valueBase l : Nat) → τ → EngineResult (UInt8 × UInt8)} {start : τ}
    {out : Vector F32 256} (code : Nat → Int) (good : Nat → τ → Prop) (hstart : good 0 start)
    (hnext : ∀ p < 4, ∀ state, good p state → good (p + 1) (next state))
    (hcodes : ∀ p < 4, ∀ state, good p state → ∀ l < 32,
      (codes (p * 32) l state).Returns fun pair =>
        (pair.1.toNat : Int) = code (64 * p + l) ∧ (pair.2.toNat : Int) = code (64 * p + 32 + l)) :
    dequantizePairs next d dMin scales codes start out = .ok (Vector.ofFn fun i =>
      d * F32.ofInt (kScaleMin scales (i / 32)).1.toNat * F32.ofInt (code i) -
        dMin * F32.ofInt (kScaleMin scales (i / 32)).2.toNat) := by
  generalize hvalue : (fun i => d * F32.ofInt (kScaleMin scales (i / 32)).1.toNat * F32.ofInt (code i) -
    dMin * F32.ofInt (kScaleMin scales (i / 32)).2.toNat) = value
  have hvalueAt := fun i => (congrFun hvalue i).symm
  suffices hloop : dequantizePairs next d dMin scales codes start out =
      .ok (Vector.ofFn fun i => value i) by
    rw [hloop, ← hvalue]
  refine Outcome.Returns.eq_ok (Outcome.Returns.bind (Outcome.returns_foldlM_range
    (fun p (s : Vector F32 256 × τ) => Written value (· < 64 * p) s.1 ∧ good p s.2)
    ⟨(written_none value out).mono fun i h => by omega, hstart⟩ ?_) ?_)
  · rintro p hp ⟨out, state⟩ ⟨hout, hstate⟩
    dsimp only
    rw [q4KScaleMin_eq scales (show p * 2 < 8 by omega), Outcome.ok_bind,
      q4KScaleMin_eq scales (show p * 2 + 1 < 8 by omega), Outcome.ok_bind]
    refine Outcome.Returns.bind (Outcome.returns_foldlM_range
      (fun l => Written value fun i =>
        i < 64 * p + l ∨ (64 * p + 32 ≤ i ∧ i < 64 * p + 32 + l))
      (hout.mono fun i h => by omega) ?_) ?_
    · intro l hl out hout
      refine (hcodes p hp state hstate l hl).bind ?_
      rintro ⟨low, high⟩ ⟨hlow, hhigh⟩
      have hfirst : p * 64 + l < 256 := by omega
      have hsecond : p * 64 + 32 + l < 256 := by omega
      have hlowValue := hvalueAt (p * 64 + l)
      have hhighValue := hvalueAt (p * 64 + 32 + l)
      rw [Nat.mul_comm p 64, show (64 * p + l) / 32 = p * 2 by omega, ← hlow,
        Nat.mul_comm 64 p] at hlowValue
      rw [Nat.mul_comm p 64, show (64 * p + 32 + l) / 32 = p * 2 + 1 by omega, ← hhigh,
        Nat.mul_comm 64 p] at hhighValue
      dsimp only
      rw [← hlowValue, store_of_lt out hfirst, Outcome.ok_bind, ← hhighValue, store_of_lt _ hsecond]
      refine Outcome.returns_ok (((hout.set hfirst).set hsecond).mono fun i h => ?_)
      by_cases heq : i = p * 64 + 32 + l
      · exact .inr heq
      · by_cases heq' : i = p * 64 + l
        · exact .inl (.inr heq')
        · exact .inl (.inl (by omega))
    · intro out hout
      exact Outcome.returns_ok ⟨hout.mono fun i h => by omega, hnext p hp state hstate⟩
  · rintro ⟨out, state⟩ ⟨hout, -⟩
    exact Outcome.returns_ok (hout.eq_ofFn fun i hi => hi)

theorem Q4KBlock.dequantize_eq (block : Q4KBlock) (out : Vector F32 256) :
    block.dequantize out = .ok (Vector.ofFn (offsetValue block.fields)) := by
  refine (dequantizePairs_eq block.code (fun _ _ => True) trivial (fun _ _ _ _ => trivial) ?_).trans ?_
  · intro p hp _ _ l hl
    unfold Q4KBlock.codes
    rw [index_of_lt _ (show p * 32 + l < 128 by omega), Outcome.ok_bind]
    refine Outcome.returns_ok ⟨?_, ?_⟩
    · unfold Q4KBlock.code nibble
      rw [if_pos (by omega), show (64 * p + l) / 64 * 32 + (64 * p + l) % 32 = p * 32 + l by omega]
    · unfold Q4KBlock.code nibble
      rw [if_neg (by omega),
        show (64 * p + 32 + l) / 64 * 32 + (64 * p + 32 + l) % 32 = p * 32 + l by omega]
  · congr 2
    funext element
    unfold Q4KBlock.fields Q4KBlock.scaleF32 Q4KBlock.minF32
    rw [offsetValue_values, subBlock_eight, fastF16ToF32_eq, fastF16ToF32_eq]

omit [FloatOps] in
theorem nibble_add_lt (byte : UInt8) (first bit : Prop) [Decidable first] [Decidable bit] :
    (nibble byte first).toNat + (if bit then 16 else 0 : UInt8).toNat < 256 := by
  have hlt := toNat_nibble_lt byte first
  split
  · rw [show (16 : UInt8).toNat = 16 from rfl]
    omega
  · rw [UInt8.toNat_zero]
    omega

omit [FloatOps] in
/-- The bit over a nibble. -/
theorem fifthBit {qh mask : UInt8} {k : Nat} (h : mask.toNat = 2 ^ k) :
    ((if qh &&& mask ≠ 0 then 16 else 0 : UInt8).toNat : Int) =
      if qh.toNat.testBit k then 16 else 0 := by
  simp only [and_bit_ne_zero_iff _ h]
  split
  · rfl
  · rfl

/-- The masks of the two high bits of a pair, two bits up in each. -/
theorem Q5KBlock.dequantize_eq (block : Q5KBlock) (out : Vector F32 256) :
    block.dequantize out = .ok (Vector.ofFn (offsetValue block.fields)) := by
  refine (dequantizePairs_eq block.code
    (fun p masks => p < 4 → masks.1.toNat = 2 ^ (2 * p) ∧ masks.2.toNat = 2 ^ (2 * p + 1))
    (fun _ => ⟨rfl, rfl⟩) ?_ ?_).trans ?_
  · intro p _ masks hmasks hlt
    obtain ⟨hlow, hhigh⟩ := hmasks (by omega)
    rw [show 2 * (p + 1) = 2 * p + 2 by omega]
    refine ⟨toNat_bit_shiftLeft hlow rfl (by omega), ?_⟩
    rw [show 2 * p + 2 + 1 = 2 * p + 1 + 2 by omega]
    exact toNat_bit_shiftLeft hhigh rfl (by omega)
  · intro p hp masks hmasks l hl
    obtain ⟨hlow, hhigh⟩ := hmasks hp
    have hfirst : nibble (peek block.values (p * 32 + l)) ((64 * p + l) % 64 < 32) =
        peek block.values (p * 32 + l) &&& 0x0f := if_pos (by omega)
    have hother : nibble (peek block.values (p * 32 + l)) ((64 * p + 32 + l) % 64 < 32) =
        peek block.values (p * 32 + l) >>> 4 := if_neg (by omega)
    unfold Q5KBlock.codes
    rw [index_of_lt _ (show p * 32 + l < 128 by omega), Outcome.ok_bind, index_of_lt _ hl,
      Outcome.ok_bind, ← hfirst, ← hother]
    refine Outcome.Returns.bind (addU8_returns (nibble_add_lt _ _ _)) fun low hlowSum => ?_
    refine Outcome.Returns.bind (addU8_returns (nibble_add_lt _ _ _)) fun high hhighSum => ?_
    refine Outcome.returns_ok ⟨?_, ?_⟩
    · unfold Q5KBlock.code
      rw [hlowSum, show (64 * p + l) / 64 * 32 + (64 * p + l) % 32 = p * 32 + l by omega,
        show (64 * p + l) % 32 = l by omega, show (64 * p + l) / 32 = 2 * p by omega, ← fifthBit hlow,
        Nat.cast_add]
    · unfold Q5KBlock.code
      rw [hhighSum, show (64 * p + 32 + l) / 64 * 32 + (64 * p + 32 + l) % 32 = p * 32 + l by omega,
        show (64 * p + 32 + l) % 32 = l by omega, show (64 * p + 32 + l) / 32 = 2 * p + 1 by omega,
        ← fifthBit hhigh, Nat.cast_add]
  · congr 2
    funext element
    unfold Q5KBlock.fields Q5KBlock.scaleF32 Q5KBlock.minF32
    rw [offsetValue_values, subBlock_eight, fastF16ToF32_eq, fastF16ToF32_eq]

-- ---------------------------------------------------------------------------
-- Q6_K
-- ---------------------------------------------------------------------------

namespace Q6KBlock

omit [FloatOps] in
/-- The bits of an element of one of the four quarters of a half. -/
theorem rawCode_eq (block : Q6KBlock) {j l : Nat} (step : Nat) (hj : j < 4) (hl : l < 32) :
    block.rawCode (128 * step + 32 * j + l) =
      nibble (peek block.ql (64 * step + l + 32 * (j % 2))) (j < 2) |||
        (((peek block.qh (32 * step + l) >>> .ofNat (j * 2)) &&& 0x03) <<< 4) := by
  have hfirst : (128 * step + 32 * j + l) % 128 < 64 ↔ j < 2 := by omega
  unfold rawCode nibble
  simp only [hfirst]
  rw [show (128 * step + 32 * j + l) / 128 * 64 + (128 * step + 32 * j + l) % 64 =
      64 * step + l + 32 * (j % 2) by omega,
    show (128 * step + 32 * j + l) / 128 * 32 + (128 * step + 32 * j + l) % 32 = 32 * step + l by omega,
    show (128 * step + 32 * j + l) % 128 / 32 = j by omega]

omit [FloatOps] in
/-- A code of six bits, less 32. -/
theorem code_returns {block : Q6KBlock} {nib high : UInt8} {i : Nat}
    (h : nib ||| ((high &&& 0x03) <<< 4) = block.rawCode i) :
    (code nib high).Returns fun q => q.toInt = block.signedCode i := by
  have hraw := block.toNat_rawCode i
  have hint : (block.rawCode i).toInt8.toInt = (block.rawCode i).toNat :=
    toInt_toInt8_of_lt (by omega)
  have hbias : (32 : Int8).toInt = 32 := rfl
  unfold code
  rw [h]
  refine (subI8_returns (by omega) (by omega)).mono fun q hq => ?_
  rw [hq, hint, hbias]
  rfl

/-- An element is stored at its place. -/
theorem storeElement_returns {block : Q6KBlock} {value : Nat → F32} {done : Nat → Prop}
    {out : Vector F32 256} {scaleIdx idx : Nat} {q : Int8} (hout : Written value done out)
    (hscale : scaleIdx < 16) (hidx : idx < 256)
    (hvalue : block.scaleF32 * F32.ofInt (block.scale scaleIdx) * F32.ofInt q.toInt = value idx) :
    (block.storeElement scaleIdx q idx out).Returns (Written value fun j => done j ∨ j = idx) := by
  unfold storeElement
  unfold scale at hvalue
  rw [index_of_lt _ hscale, Outcome.ok_bind, hvalue, store_of_lt out hidx]
  exact Outcome.returns_ok (hout.set hidx)

theorem dequantize_eq (block : Q6KBlock) (out : Vector F32 256) :
    block.dequantize out = .ok (Vector.ofFn (scaledValue block.fields F32.ofInt)) := by
  have hloops : block.dequantize out = .ok (Vector.ofFn fun i =>
      block.scaleF32 * F32.ofInt (block.scale (i / 16)) * F32.ofInt (block.signedCode i)) := by
    generalize hvalue : (fun i => block.scaleF32 * F32.ofInt (block.scale (i / 16)) *
      F32.ofInt (block.signedCode i)) = value
    have hvalueAt := fun i => congrFun hvalue i
    suffices hloop : block.dequantize out = .ok (Vector.ofFn fun i => value i) by
      rw [hloop, ← hvalue]
    refine Outcome.Returns.eq_ok (Outcome.Returns.bind (Outcome.returns_foldlM_range
      (fun step (s : Vector F32 256 × Nat × Nat × Nat) => Written value (· < 128 * step) s.1 ∧
        s.2.1 = 64 * step ∧ s.2.2.1 = 32 * step ∧ s.2.2.2 = 8 * step)
      ⟨(written_none value out).mono fun i h => by omega, rfl, rfl, rfl⟩ ?_) ?_)
    · rintro step hstep ⟨out, _, _, _⟩ ⟨hout, rfl, rfl, rfl⟩
      refine Outcome.Returns.bind (Outcome.returns_foldlM_range
        (fun l => Written value fun i => i < 128 * step ∨ (i < 128 * step + 128 ∧ i % 32 < l))
        (hout.mono fun i h => by omega) ?_) ?_
      · intro l hl out hout
        have hzero := (block.rawCode_eq step (show 0 < 4 by decide) hl).symm
        have hone := (block.rawCode_eq step (show 1 < 4 by decide) hl).symm
        have htwo := (block.rawCode_eq step (show 2 < 4 by decide) hl).symm
        have hthree := (block.rawCode_eq step (show 3 < 4 by decide) hl).symm
        rw [index_of_lt _ (show 32 * step + l < 64 by omega), Outcome.ok_bind,
          index_of_lt _ (show 64 * step + l < 128 by omega), Outcome.ok_bind,
          index_of_lt _ (show 64 * step + l + 32 < 128 by omega), Outcome.ok_bind]
        refine Outcome.Returns.bind (code_returns hzero) fun q1 hq1 => ?_
        refine Outcome.Returns.bind (code_returns hone) fun q2 hq2 => ?_
        refine Outcome.Returns.bind (code_returns htwo) fun q3 hq3 => ?_
        refine Outcome.Returns.bind (code_returns hthree) fun q4 hq4 => ?_
        have hstored : ∀ j < 4, block.scaleF32 * F32.ofInt (block.scale (8 * step + l / 16 + 2 * j)) *
            F32.ofInt (block.signedCode (128 * step + 32 * j + l)) = value (step * 128 + l + 32 * j) := by
          intro j hj
          rw [← hvalueAt, show (step * 128 + l + 32 * j) / 16 = 8 * step + l / 16 + 2 * j by omega,
            show step * 128 + l + 32 * j = 128 * step + 32 * j + l by omega]
        refine Outcome.Returns.bind (storeElement_returns hout (by omega) (by omega)
          (hq1 ▸ hstored 0 (by decide))) fun out hout => ?_
        refine Outcome.Returns.bind (storeElement_returns hout (by omega) (by omega)
          (hq2 ▸ hstored 1 (by decide))) fun out hout => ?_
        refine Outcome.Returns.bind (storeElement_returns hout (by omega) (by omega)
          (hq3 ▸ hstored 2 (by decide))) fun out hout => ?_
        refine (storeElement_returns hout (by omega) (by omega)
          (hq4 ▸ hstored 3 (by decide))).mono fun out hout => hout.mono fun i h => ?_
        omega
      · intro out hout
        refine Outcome.returns_ok ⟨hout.mono fun i h => by omega, ?_, ?_, ?_⟩ <;> dsimp only <;> omega
    · rintro ⟨out, _, _, _⟩ ⟨hout, -, -, -⟩
      exact Outcome.returns_ok (hout.eq_ofFn fun i hi => hi)
  rw [hloops]
  congr 2
  funext element
  unfold fields scaleF32
  rw [scaledValue_values, subBlock_sixteen, fastF16ToF32_eq]

end Q6KBlock

-- ---------------------------------------------------------------------------
-- IQ4_XS
-- ---------------------------------------------------------------------------

namespace IQ4XSBlock

omit [FloatOps] in
theorem subBlockScaleInt_eq (block : IQ4XSBlock) {k : Nat} (hk : k < 8) :
    block.subBlockScaleInt k = .ok (block.scale k) := by
  unfold subBlockScaleInt scale
  rw [index_of_lt _ (by omega), Outcome.ok_bind, shrU8_of_lt _ (by omega), Outcome.ok_bind,
    shrU16_of_lt _ (by omega), Outcome.ok_bind]

/-- The code book, by an index as an integer. -/
def codeValue (code : Int) : F32 := kvaluesIq4nl code.toNat

theorem dequantize_eq (block : IQ4XSBlock) (out : Vector F32 256) :
    block.dequantize out = .ok (Vector.ofFn (scaledValue block.fields codeValue)) := by
  have hloops : block.dequantize out = .ok (Vector.ofFn fun i =>
      block.scaleF32 * F32.ofInt (block.scale (i / 32)) * codeValue (block.code i)) := by
    generalize hvalue : (fun i => block.scaleF32 * F32.ofInt (block.scale (i / 32)) *
      codeValue (block.code i)) = value
    have hvalueAt := fun i => congrFun hvalue i
    suffices hloop : block.dequantize out = .ok (Vector.ofFn fun i => value i) by
      rw [hloop, ← hvalue]
    refine Outcome.Returns.eq_ok (Outcome.Returns.mono (Outcome.returns_foldlM_range
      (fun ib => Written value (· < 32 * ib))
      ((written_none value out).mono fun i h => by omega) ?_) fun out hout => ?_)
    · intro ib hib out hout
      unfold subBlockScale
      rw [block.subBlockScaleInt_eq hib, Outcome.ok_bind, Outcome.ok_bind]
      refine (Outcome.returns_foldlM_range
        (fun j => Written value fun i =>
          i < 32 * ib + j ∨ (32 * ib + 16 ≤ i ∧ i < 32 * ib + 16 + j))
        (hout.mono fun i h => by omega) ?_).mono fun out hout => hout.mono fun i h => by omega
      intro j hj out hout
      have hfirst : ib * 32 + j < 256 := by omega
      have hsecond : ib * 32 + j + 16 < 256 := by omega
      have hlow : block.code (ib * 32 + j) = (peek block.qs (ib * 16 + j) &&& 0x0f).toNat := by
        unfold code nibble
        rw [if_pos (by omega), show (ib * 32 + j) / 32 * 16 + (ib * 32 + j) % 16 = ib * 16 + j by omega]
      have hhigh : block.code (ib * 32 + j + 16) = (peek block.qs (ib * 16 + j) >>> 4).toNat := by
        unfold code nibble
        rw [if_neg (by omega),
          show (ib * 32 + j + 16) / 32 * 16 + (ib * 32 + j + 16) % 16 = ib * 16 + j by omega]
      have hlowValue := hvalueAt (ib * 32 + j)
      have hhighValue := hvalueAt (ib * 32 + j + 16)
      rw [show (ib * 32 + j) / 32 = ib by omega, hlow] at hlowValue
      rw [show (ib * 32 + j + 16) / 32 = ib by omega, hhigh] at hhighValue
      unfold codeValue at hlowValue hhighValue
      rw [Int.toNat_natCast] at hlowValue hhighValue
      rw [index_of_lt _ (show ib * 16 + j < 128 by omega), Outcome.ok_bind, hlowValue,
        store_of_lt out hfirst, Outcome.ok_bind, hhighValue, store_of_lt _ hsecond]
      refine Outcome.returns_ok (((hout.set hfirst).set hsecond).mono fun i h => ?_)
      by_cases heq : i = ib * 32 + j + 16
      · exact .inr heq
      · by_cases heq' : i = ib * 32 + j
        · exact .inl (.inr heq')
        · exact .inl (.inl (by omega))
    · exact hout.eq_ofFn fun i hi => hi
  rw [hloops]
  congr 2
  funext element
  unfold fields scaleF32
  rw [scaledValue_values, subBlock_eight, fastF16ToF32_eq]

end IQ4XSBlock

-- ---------------------------------------------------------------------------
-- The formats
-- ---------------------------------------------------------------------------

/-- The bytes of a block and its fields in their ranges determine each other, and its
elements are made of its fields. -/
structure Unpacks {Field : Type} {size : Nat} (fields : Vector UInt8 size → Field → Int)
    (ranges : Field → Set Int)
    (dequantize : Vector UInt8 size → Vector F32 256 → EngineResult (Vector F32 256))
    (value : (Field → Int) → Fin 256 → F32) : Prop where
  bijOn : Set.BijOn fields Set.univ {values | ∀ field, values field ∈ ranges field}
  elements : ∀ bytes out, dequantize bytes out = .ok (Vector.ofFn (value (fields bytes)))

/-- No format reads a bit twice or drops one, or leaves the range of a byte on the way, and
each element has its own code, with the scale and the min of the sub-block it is in. -/
theorem kquant_unpacking :
    Unpacks (fun bytes => (Q2KBlock.fromBytes bytes).fields)
      (Sum.elim (ScaleField.ranges (Set.Ico 0 16) (Set.Ico 0 4)) (MinField.ranges (Set.Ico 0 16)))
      (fun bytes => (Q2KBlock.fromBytes bytes).dequantize) offsetValue ∧
    Unpacks (fun bytes => (Q3KBlock.fromBytes bytes).fields)
      (ScaleField.ranges (Set.Ico (-32) 32) (Set.Ico (-4) 4))
      (fun bytes => (Q3KBlock.fromBytes bytes).dequantize)
      (fun fields => scaledValue fields F32.ofInt) ∧
    Unpacks (fun bytes => (Q4KBlock.fromBytes bytes).fields)
      (Sum.elim (ScaleField.ranges (Set.Ico 0 64) (Set.Ico 0 16)) (MinField.ranges (Set.Ico 0 64)))
      (fun bytes => (Q4KBlock.fromBytes bytes).dequantize) offsetValue ∧
    Unpacks (fun bytes => (Q5KBlock.fromBytes bytes).fields)
      (Sum.elim (ScaleField.ranges (Set.Ico 0 64) (Set.Ico 0 32)) (MinField.ranges (Set.Ico 0 64)))
      (fun bytes => (Q5KBlock.fromBytes bytes).dequantize) offsetValue ∧
    Unpacks (fun bytes => (Q6KBlock.fromBytes bytes).fields)
      (ScaleField.ranges (Set.Ico (-128) 128) (Set.Ico (-32) 32))
      (fun bytes => (Q6KBlock.fromBytes bytes).dequantize)
      (fun fields => scaledValue fields F32.ofInt) ∧
    Unpacks (fun bytes => (IQ4XSBlock.fromBytes bytes).fields)
      (ScaleField.ranges (Set.Ico (-32) 32) (Set.Ico 0 16))
      (fun bytes => (IQ4XSBlock.fromBytes bytes).dequantize)
      (fun fields => scaledValue fields IQ4XSBlock.codeValue) :=
  ⟨⟨Q2KBlock.bijOn_fields, fun _ out => Q2KBlock.dequantize_eq _ out⟩,
    ⟨Q3KBlock.bijOn_fields, fun _ out => Q3KBlock.dequantize_eq _ out⟩,
    ⟨Q4KBlock.bijOn_fields, fun _ out => Q4KBlock.dequantize_eq _ out⟩,
    ⟨Q5KBlock.bijOn_fields, fun _ out => Q5KBlock.dequantize_eq _ out⟩,
    ⟨Q6KBlock.bijOn_fields, fun _ out => Q6KBlock.dequantize_eq _ out⟩,
    ⟨IQ4XSBlock.bijOn_fields, fun _ out => IQ4XSBlock.dequantize_eq _ out⟩⟩

end CamelidEnterprise

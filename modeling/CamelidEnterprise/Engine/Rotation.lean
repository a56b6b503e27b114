import CamelidEnterprise.Engine.Rope
import CamelidEnterprise.Foundation.InPlace

/-!
# Camelid Enterprise — the rotation of a row

`apply_rope_to_row` of `crates/engine-core/src/forward/rope.rs` as a loop of pairs updated in
place: a turn is a pair of one head. The dimensions below `rope_dim` of every head are each
named by one turn, in either pairing, and the split-half pairing is the adjacent one up to the
order of the dimensions.

* `applyRope_rotates` — an accepted row is rotated, each pair from its own original values,
  and the two pairings agree up to the interleaving of the halves.
-/

namespace CamelidEnterprise

open Foundation Foundation.InPlace

namespace RopeParams

-- ---------------------------------------------------------------------------
-- Turns
-- ---------------------------------------------------------------------------

/-- The pairs and heads, in the order of the loops. -/
def turns (params : RopeParams) : List (Nat × Nat) :=
  (List.range (params.ropeDim / 2)).flatMap fun pairIdx =>
    (List.range params.headCount).map fun head => (pairIdx, head)

/-- The two dimensions of the row that a turn reads and writes. -/
def dims (params : RopeParams) (turn : Nat × Nat) : Nat × Nat :=
  (turn.2 * params.headDim + (params.pairDims turn.1).1,
    turn.2 * params.headDim + (params.pairDims turn.1).2)

theorem mem_turns {params : RopeParams} {turn : Nat × Nat} :
    turn ∈ params.turns ↔ turn.1 < params.ropeDim / 2 ∧ turn.2 < params.headCount := by
  unfold turns
  simp only [List.mem_flatMap, List.mem_map, List.mem_range]
  constructor
  · rintro ⟨pairIdx, hpair, head, hhead, rfl⟩
    exact ⟨hpair, hhead⟩
  · rintro ⟨hpair, hhead⟩
    exact ⟨turn.1, hpair, turn.2, hhead, rfl⟩

theorem turns_nodup (params : RopeParams) : params.turns.Nodup := by
  unfold turns
  rw [List.nodup_flatMap]
  refine ⟨fun pairIdx _ => List.nodup_range.map fun _ _ h => congrArg Prod.snd h, ?_⟩
  refine List.nodup_range.imp fun {a b} hne => ?_
  rw [Function.onFun_apply, List.disjoint_left]
  intro turn ha hb
  obtain ⟨_, -, rfl⟩ := List.mem_map.mp ha
  obtain ⟨_, -, hb⟩ := List.mem_map.mp hb
  exact hne (congrArg Prod.fst hb).symm

/-- What the checks of a call leave of the widths. -/
structure Fits (params : RopeParams) (width : Nat) : Prop where
  heads : 0 < params.headCount
  width : width = params.headCount * params.headDim
  rotated : 0 < params.ropeDim
  within : params.ropeDim ≤ params.headDim
  even : params.ropeDim % 2 = 0

/-- The pair that a dimension of a head is in. -/
def pairOf (params : RopeParams) (dim : Nat) : Nat :=
  match params.pairing with
  | .AdjacentEvenOdd => dim / 2
  | .SplitHalf => dim % (params.ropeDim / 2)

section Fits

variable {params : RopeParams} {width : Nat}

/-- The dimensions of a pair are below `rope_dim`, differ, and know their pair. -/
theorem pairDims_spec {pairIdx : Nat} (hpair : pairIdx < params.ropeDim / 2) :
    (params.pairDims pairIdx).1 < params.ropeDim ∧ (params.pairDims pairIdx).2 < params.ropeDim ∧
      (params.pairDims pairIdx).1 ≠ (params.pairDims pairIdx).2 ∧
      params.pairOf (params.pairDims pairIdx).1 = pairIdx ∧
      params.pairOf (params.pairDims pairIdx).2 = pairIdx := by
  unfold pairDims pairOf
  rcases params.pairing
  · dsimp only
    refine ⟨by omega, by omega, by omega, by omega, by omega⟩
  · dsimp only
    refine ⟨by omega, by omega, by omega, Nat.mod_eq_of_lt hpair, ?_⟩
    rw [Nat.add_mod_right, Nat.mod_eq_of_lt hpair]

/-- Every dimension below `rope_dim` is one of the two of its pair. -/
theorem pairDims_pairOf (heven : params.ropeDim % 2 = 0) {dim : Nat} (hdim : dim < params.ropeDim) :
    params.pairOf dim < params.ropeDim / 2 ∧
      (dim = (params.pairDims (params.pairOf dim)).1 ∨
        dim = (params.pairDims (params.pairOf dim)).2) := by
  unfold pairDims pairOf
  rcases params.pairing
  · dsimp only
    omega
  · dsimp only
    have hhalf : 0 < params.ropeDim / 2 := by omega
    refine ⟨Nat.mod_lt _ hhalf, ?_⟩
    rcases Nat.lt_or_ge dim (params.ropeDim / 2) with hlt | hge
    · exact .inl (Nat.mod_eq_of_lt hlt).symm
    · refine .inr ?_
      rw [Nat.mod_eq_sub_mod hge, Nat.mod_eq_of_lt (by omega)]
      omega

theorem touched_lt (hfits : params.Fits width) {i : Nat}
    (h : i ∈ touched params.dims params.turns) : i < width ∧ i % params.headDim < params.ropeDim := by
  obtain ⟨turn, hturn, hi⟩ := List.mem_flatMap.mp h
  rw [mem_turns] at hturn
  obtain ⟨hfst, hsnd, -⟩ := pairDims_spec hturn.1
  -- an index of the turn's head, below `rope_dim`
  have hinside : ∀ dim < params.ropeDim, turn.2 * params.headDim + dim < width ∧
      (turn.2 * params.headDim + dim) % params.headDim < params.ropeDim := by
    intro dim hdim
    have hwithin := hfits.within
    constructor
    · calc turn.2 * params.headDim + dim < (turn.2 + 1) * params.headDim := by
            rw [Nat.succ_mul]
            omega
        _ ≤ params.headCount * params.headDim := Nat.mul_le_mul_right _ hturn.2
        _ = width := hfits.width.symm
    · rw [Nat.mul_add_mod', Nat.mod_eq_of_lt (by omega)]
      exact hdim
  simp only [List.mem_cons, List.not_mem_nil, or_false] at hi
  rcases hi with rfl | rfl
  · exact hinside _ hfst
  · exact hinside _ hsnd

/-- Every dimension below `rope_dim` of every head is in a turn. -/
theorem mem_touched (hfits : params.Fits width) {i : Nat} (hi : i < width)
    (hdim : i % params.headDim < params.ropeDim) : i ∈ touched params.dims params.turns := by
  obtain ⟨hpair, hdims⟩ := pairDims_pairOf hfits.even hdim
  have hhead : i / params.headDim < params.headCount := by
    refine Nat.div_lt_of_lt_mul ?_
    rw [Nat.mul_comm, ← hfits.width]
    exact hi
  refine List.mem_flatMap.mpr
    ⟨(params.pairOf (i % params.headDim), i / params.headDim), mem_turns.mpr ⟨hpair, hhead⟩, ?_⟩
  have hsplit := Nat.div_add_mod' i params.headDim
  unfold dims
  dsimp only
  simp only [List.mem_cons, List.not_mem_nil, or_false]
  rcases hdims with hfst | hsnd
  · exact .inl (by omega)
  · exact .inr (by omega)

theorem touched_turns_nodup (hfits : params.Fits width) :
    (touched params.dims params.turns).Nodup := by
  have hturn (turn : Nat × Nat) {dim : Nat} (hdim : dim < params.ropeDim)
      (hpair : params.pairOf dim = turn.1) :
      (params.pairOf ((turn.2 * params.headDim + dim) % params.headDim),
        (turn.2 * params.headDim + dim) / params.headDim) = turn := by
    have hlt : dim < params.headDim := lt_of_lt_of_le hdim hfits.within
    rw [Nat.mul_add_mod', Nat.mod_eq_of_lt hlt, hpair, Nat.mul_comm,
      Nat.mul_add_div (by omega), Nat.div_eq_of_lt hlt, Nat.add_zero]
  refine InPlace.touched_nodup params.turns_nodup (fun turn hmem => ?_)
    (fun i => (params.pairOf (i % params.headDim), i / params.headDim))
    (fun turn hmem => ?_) fun turn hmem => ?_
  · obtain ⟨-, -, hne, -⟩ := pairDims_spec (mem_turns.mp hmem).1
    unfold dims
    omega
  · obtain ⟨hfst, -, -, hpair, -⟩ := pairDims_spec (mem_turns.mp hmem).1
    exact hturn turn hfst hpair
  · obtain ⟨-, hsnd, -, -, hpair⟩ := pairDims_spec (mem_turns.mp hmem).1
    exact hturn turn hsnd hpair

/-- Below `rope_dim` each dimension of each head is written once, and no other is written. -/
theorem count_touched (hfits : params.Fits width) {i : Nat} (hi : i < width) :
    (touched params.dims params.turns).count i =
      if i % params.headDim < params.ropeDim then 1 else 0 := by
  rw [(touched_turns_nodup hfits).count]
  refine if_congr ⟨fun hmem => (touched_lt hfits hmem).2, mem_touched hfits hi⟩ rfl rfl

end Fits

end RopeParams

-- ---------------------------------------------------------------------------
-- The loops
-- ---------------------------------------------------------------------------

section Loops

variable [FloatOps]

/-- The rotation of a pair, forward. -/
def rotation (sin cos : F32) (x0 x1 : F32) : F32 × F32 := (x0 * cos - x1 * sin, x0 * sin + x1 * cos)

/-- Sine and cosine of a pair at a position. -/
def RopeParams.sinCos (params : RopeParams) (position pairIdx : Nat) : EngineResult (F32 × F32) := do
  let theta ← ropePairFrequency pairIdx params
  let angle := F32.ofInt position * theta
  let mscale := ropeMagnitudeScale params.scaling
  .ok (FloatOps.sin angle * mscale, FloatOps.cos angle * mscale)

/-- What a turn makes of its pair. -/
def RopeParams.rotate (params : RopeParams) (position : Nat) (turn : Nat × Nat) :
    EngineResult (F32 → F32 → F32 × F32) := do
  let (sin, cos) ← params.sinCos position turn.1
  .ok (rotation sin cos)

/-- The two loops are one loop over the turns. -/
theorem applyRopeToRow_eq_turns (row : List F32) (position : Nat) {params : RopeParams}
    (hheads : 0 < params.headCount) :
    applyRopeToRow row position params =
      params.turns.foldlM (update params.dims (params.rotate position)) row := by
  have hne : List.range params.headCount ≠ [] := by
    rw [Ne, List.range_eq_nil]
    omega
  have hstep (data : List F32) (pairIdx : Nat) :
      (do
        let theta ← ropePairFrequency pairIdx params
        let angle := F32.ofInt position * theta
        let sin := FloatOps.sin angle * ropeMagnitudeScale params.scaling
        let cos := FloatOps.cos angle * ropeMagnitudeScale params.scaling
        (List.range params.headCount).foldlM (fun data head =>
          let headStart := head * params.headDim
          let dims := params.pairDims pairIdx
          rotatePair sin cos (headStart + dims.1) (headStart + dims.2) data) data) =
      ((List.range params.headCount).map fun head => (pairIdx, head)).foldlM
        (update params.dims (params.rotate position)) data := by
    rw [List.foldlM_map]
    dsimp only
    rw [Outcome.bind_foldlM _ _ hne]
    refine congrArg (fun f => (List.range params.headCount).foldlM f data) (funext₂ fun data head => ?_)
    unfold update RopeParams.rotate RopeParams.sinCos
    rcases ropePairFrequency pairIdx params with theta | e | k
    · rfl
    · rfl
    · rfl
  unfold applyRopeToRow RopeParams.turns
  rw [Outcome.foldlM_flatMap]
  exact congrArg (fun f => (List.range (params.ropeDim / 2)).foldlM f row) (funext₂ hstep)

/-- A row after its rotation: the dimensions from `rope_dim` on are as they were, and each
pair of each head is rotated from the values it had. -/
structure Rotated (params : RopeParams) (position : Nat) (row out : List F32) : Prop where
  length : out.length = row.length
  kept : ∀ i < row.length, params.ropeDim ≤ i % params.headDim → out[i]? = row[i]?
  rotated : ∀ pairIdx < params.ropeDim / 2, ∀ head < params.headCount, ∃ sin cos x0 x1,
    params.sinCos position pairIdx = .ok (sin, cos) ∧
      row[head * params.headDim + (params.pairDims pairIdx).1]? = some x0 ∧
      row[head * params.headDim + (params.pairDims pairIdx).2]? = some x1 ∧
      out[head * params.headDim + (params.pairDims pairIdx).1]? = some (x0 * cos - x1 * sin) ∧
      out[head * params.headDim + (params.pairDims pairIdx).2]? = some (x0 * sin + x1 * cos)

theorem applyRopeToRow_ok {row out : List F32} {position : Nat} {params : RopeParams}
    (hfits : params.Fits row.length) (h : applyRopeToRow row position params = .ok out) :
    Rotated params position row out := by
  rw [applyRopeToRow_eq_turns row position hfits.heads] at h
  obtain ⟨hlen, hkept, hturned⟩ := updates_ok (RopeParams.touched_turns_nodup hfits) h
  refine ⟨hlen, fun i _ hdim => ?_, fun pairIdx hpair head hhead => ?_⟩
  · exact hkept i fun hmem => absurd (RopeParams.touched_lt hfits hmem).2 (by omega)
  · obtain ⟨f, x0, x1, hf, hx0, hx1, hy0, hy1⟩ :=
      hturned (pairIdx, head) (RopeParams.mem_turns.mpr ⟨hpair, hhead⟩)
    unfold RopeParams.rotate at hf
    obtain ⟨⟨sin, cos⟩, hangle, hf⟩ := Outcome.bind_eq_ok.mp hf
    obtain rfl := Outcome.ok.inj hf
    exact ⟨sin, cos, x0, x1, hangle, hx0, hx1, hy0, hy1⟩

/-- The rotation returns where every pair has its angle. -/
theorem applyRopeToRow_returns {row : List F32} {position : Nat} {params : RopeParams}
    (hfits : params.Fits row.length)
    (hangles : ∀ pairIdx < params.ropeDim / 2, ∃ theta, ropePairFrequency pairIdx params = .ok theta) :
    ∃ out, applyRopeToRow row position params = .ok out := by
  rw [applyRopeToRow_eq_turns row position hfits.heads]
  refine updates_returns (fun turn hturn => ?_) fun i hi => (RopeParams.touched_lt hfits hi).1
  obtain ⟨theta, htheta⟩ := hangles turn.1 (RopeParams.mem_turns.mp hturn).1
  unfold RopeParams.rotate RopeParams.sinCos
  rw [htheta]
  exact ⟨_, rfl⟩

end Loops

-- ---------------------------------------------------------------------------
-- The two pairings
-- ---------------------------------------------------------------------------

/-- A renaming of the dimensions of a head, in every head. -/
def perHead (headDim : Nat) (f : Nat → Nat) (i : Nat) : Nat := i / headDim * headDim + f (i % headDim)

/-- Where a dimension of the split halves goes when they are interleaved. -/
def interleaveDim (ropeDim dim : Nat) : Nat :=
  if dim < ropeDim then 2 * (dim % (ropeDim / 2)) + dim / (ropeDim / 2) else dim

/-- Where a dimension of the interleaved halves comes from. -/
def splitDim (ropeDim dim : Nat) : Nat :=
  if dim < ropeDim then dim / 2 + dim % 2 * (ropeDim / 2) else dim

section Dims

variable {ropeDim headDim dim : Nat}

theorem interleaveDim_low (h : dim < ropeDim / 2) : interleaveDim ropeDim dim = 2 * dim := by
  unfold interleaveDim
  rw [if_pos (by omega), Nat.mod_eq_of_lt h, Nat.div_eq_of_lt h, Nat.add_zero]

theorem interleaveDim_high (h : dim < ropeDim / 2) :
    interleaveDim ropeDim (dim + ropeDim / 2) = 2 * dim + 1 := by
  unfold interleaveDim
  rw [if_pos (by omega), Nat.add_mod_right, Nat.mod_eq_of_lt h,
    Nat.add_div_right _ (by omega), Nat.div_eq_of_lt h]

theorem interleaveDim_of_ge (h : ropeDim ≤ dim) : interleaveDim ropeDim dim = dim :=
  if_neg (by omega)

theorem splitDim_interleaveDim (heven : ropeDim % 2 = 0) :
    splitDim ropeDim (interleaveDim ropeDim dim) = dim := by
  rcases Nat.lt_or_ge dim ropeDim with hlt | hge
  · rcases Nat.lt_or_ge dim (ropeDim / 2) with hlow | hhigh
    · rw [interleaveDim_low hlow]
      unfold splitDim
      rw [if_pos (by omega), Nat.mul_mod_right, Nat.zero_mul]
      omega
    · obtain ⟨rest, rfl⟩ := Nat.exists_eq_add_of_le' hhigh
      rw [interleaveDim_high (by omega)]
      unfold splitDim
      rw [if_pos (by omega), Nat.mul_add_mod]
      omega
  · rw [interleaveDim_of_ge hge]
    exact if_neg (by omega)

theorem interleaveDim_splitDim (heven : ropeDim % 2 = 0) :
    interleaveDim ropeDim (splitDim ropeDim dim) = dim := by
  unfold splitDim
  split
  · rcases Nat.mod_two_eq_zero_or_one dim with hmod | hmod
    · rw [hmod, Nat.zero_mul, Nat.add_zero, interleaveDim_low (by omega)]
      omega
    · rw [hmod, Nat.one_mul, interleaveDim_high (by omega)]
      omega
  · exact interleaveDim_of_ge (by omega)

theorem splitDim_lt (hwithin : ropeDim ≤ headDim) (heven : ropeDim % 2 = 0) (h : dim < headDim) :
    splitDim ropeDim dim < headDim := by
  unfold splitDim
  split
  · rcases Nat.mod_two_eq_zero_or_one dim with hmod | hmod
    · rw [hmod]
      omega
    · rw [hmod]
      omega
  · exact h

theorem interleaveDim_lt (hwithin : ropeDim ≤ headDim) (heven : ropeDim % 2 = 0)
    (h : dim < headDim) : interleaveDim ropeDim dim < headDim := by
  rcases Nat.lt_or_ge dim ropeDim with hlt | hge
  · rcases Nat.lt_or_ge dim (ropeDim / 2) with hlow | hhigh
    · rw [interleaveDim_low hlow]
      omega
    · obtain ⟨rest, rfl⟩ := Nat.exists_eq_add_of_le' hhigh
      rw [interleaveDim_high (by omega)]
      omega
  · rw [interleaveDim_of_ge hge]
    exact h

variable {f g : Nat → Nat}

theorem perHead_at (head : Nat) (h : dim < headDim) :
    perHead headDim f (head * headDim + dim) = head * headDim + f dim := by
  unfold perHead
  rw [Nat.mul_add_mod', Nat.mod_eq_of_lt h, Nat.mul_comm head, Nat.mul_add_div (by omega),
    Nat.div_eq_of_lt h, Nat.add_zero, Nat.mul_comm]

theorem perHead_perHead (hpos : 0 < headDim) (hf : ∀ dim < headDim, f dim < headDim)
    (hg : ∀ dim < headDim, g (f dim) = dim) (i : Nat) :
    perHead headDim g (perHead headDim f i) = i := by
  have hmod := Nat.mod_lt i hpos
  unfold perHead
  rw [Nat.mul_add_mod', Nat.mod_eq_of_lt (hf _ hmod), hg _ hmod, Nat.mul_comm (i / headDim),
    Nat.mul_add_div hpos, Nat.div_eq_of_lt (hf _ hmod), Nat.add_zero, Nat.div_add_mod']

theorem perHead_lt {headCount i : Nat} (hpos : 0 < headDim)
    (hf : ∀ dim < headDim, f dim < headDim) (hi : i < headCount * headDim) :
    perHead headDim f i < headCount * headDim := by
  have hhead : i / headDim < headCount := Nat.div_lt_of_lt_mul (by rwa [Nat.mul_comm])
  have hlt := hf _ (Nat.mod_lt i hpos)
  calc perHead headDim f i < (i / headDim + 1) * headDim := by
        unfold perHead
        rw [Nat.succ_mul]
        omega
    _ ≤ headCount * headDim := Nat.mul_le_mul_right _ hhead

end Dims

/-- Every head with the halves of its rotated dimensions interleaved. -/
def interleaveHalves {α : Type} (headDim ropeDim : Nat) (row : List α) : List α :=
  gather (perHead headDim (splitDim ropeDim)) row

/-- Every head with its interleaved dimensions put back in halves. -/
def separateHalves {α : Type} (headDim ropeDim : Nat) (row : List α) : List α :=
  gather (perHead headDim (interleaveDim ropeDim)) row

/-- The same rotation in another pairing. -/
def RopeParams.withPairing (params : RopeParams) (pairing : RopePairing) : RopeParams :=
  { params with pairing }

theorem RopeParams.Fits.withPairing {params : RopeParams} {width : Nat} (h : params.Fits width)
    (pairing : RopePairing) : (params.withPairing pairing).Fits width :=
  ⟨h.heads, h.width, h.rotated, h.within, h.even⟩

section Pairings

variable {α : Type} {params : RopeParams}

theorem interleave_separate {row : List α} (hfits : params.Fits row.length) :
    separateHalves params.headDim params.ropeDim
      (interleaveHalves params.headDim params.ropeDim row) = row ∧
    interleaveHalves params.headDim params.ropeDim
      (separateHalves params.headDim params.ropeDim row) = row := by
  have hpos : 0 < params.headDim := lt_of_lt_of_le hfits.rotated hfits.within
  have hsplit : ∀ dim < params.headDim, splitDim params.ropeDim dim < params.headDim :=
    fun _ => splitDim_lt hfits.within hfits.even
  have hinterleave : ∀ dim < params.headDim, interleaveDim params.ropeDim dim < params.headDim :=
    fun _ => interleaveDim_lt hfits.within hfits.even
  have hlt {f : Nat → Nat} (hf : ∀ dim < params.headDim, f dim < params.headDim) :
      ∀ i < row.length, perHead params.headDim f i < row.length := by
    rw [hfits.width]
    exact fun i hi => perHead_lt hpos hf hi
  constructor
  · exact gather_gather (hlt hsplit) (hlt hinterleave) fun i _ =>
      perHead_perHead hpos hinterleave (fun _ _ => splitDim_interleaveDim hfits.even) i
  · exact gather_gather (hlt hinterleave) (hlt hsplit) fun i _ =>
      perHead_perHead hpos hsplit (fun _ _ => interleaveDim_splitDim hfits.even) i

/-- The adjacent pairs are the split ones, interleaved. -/
theorem dims_interleaved {width : Nat} (hfits : params.Fits width) {turn : Nat × Nat}
    (hturn : turn ∈ params.turns) :
    (params.withPairing .AdjacentEvenOdd).dims turn =
      (perHead params.headDim (interleaveDim params.ropeDim)
          ((params.withPairing .SplitHalf).dims turn).1,
        perHead params.headDim (interleaveDim params.ropeDim)
          ((params.withPairing .SplitHalf).dims turn).2) := by
  obtain ⟨hpair, -⟩ := RopeParams.mem_turns.mp hturn
  have hwithin := hfits.within
  show (turn.2 * params.headDim + turn.1 * 2, turn.2 * params.headDim + (turn.1 * 2 + 1)) =
    (perHead params.headDim (interleaveDim params.ropeDim) (turn.2 * params.headDim + turn.1),
      perHead params.headDim (interleaveDim params.ropeDim)
        (turn.2 * params.headDim + (turn.1 + params.ropeDim / 2)))
  rw [perHead_at _ (by omega), perHead_at _ (by omega), interleaveDim_low hpair,
    interleaveDim_high hpair, Nat.mul_comm 2]

/-- The split-half rotation is the adjacent one of the interleaved row, put back in halves. -/
theorem applyRopeToRow_splitHalf [FloatOps] {row : List F32} (hfits : params.Fits row.length)
    (position : Nat) :
    applyRopeToRow row position (params.withPairing .SplitHalf) =
      (applyRopeToRow (interleaveHalves params.headDim params.ropeDim row) position
        (params.withPairing .AdjacentEvenOdd)).map
          (separateHalves params.headDim params.ropeDim) := by
  have hpos : 0 < params.headDim := lt_of_lt_of_le hfits.rotated hfits.within
  have hinterleave : ∀ dim < params.headDim, interleaveDim params.ropeDim dim < params.headDim :=
    fun _ => interleaveDim_lt hfits.within hfits.even
  have hback : ∀ i, perHead params.headDim (splitDim params.ropeDim)
      (perHead params.headDim (interleaveDim params.ropeDim) i) = i :=
    perHead_perHead hpos hinterleave fun _ _ => splitDim_interleaveDim hfits.even
  have hfitsSplit := hfits.withPairing .SplitHalf
  rw [applyRopeToRow_eq_turns row position hfitsSplit.heads,
    applyRopeToRow_eq_turns _ position (hfits.withPairing .AdjacentEvenOdd).heads]
  conv_lhs => rw [← (interleave_separate hfits).1]
  refine updates_gather (n := row.length) ?_ ?_ (by simp [interleaveHalves]) fun turn hturn => ?_
  · rw [hfits.width]
    exact fun i hi => perHead_lt hpos hinterleave hi
  · intro i _ j _ h
    rw [← hback i, ← hback j, h]
  · have hmem {i : Nat} (hi : i ∈ [((params.withPairing .SplitHalf).dims turn).1,
        ((params.withPairing .SplitHalf).dims turn).2]) : i < row.length :=
      (RopeParams.touched_lt hfitsSplit (List.mem_flatMap.mpr ⟨turn, hturn, hi⟩)).1
    exact ⟨hmem (by simp), hmem (by simp), dims_interleaved hfits hturn⟩

end Pairings

-- ---------------------------------------------------------------------------
-- Accepted configurations
-- ---------------------------------------------------------------------------

/-- The same model with its pairs adjacent or split. -/
def LlamaModelConfig.withNeoxPairing (config : LlamaModelConfig) (neox : Bool) : LlamaModelConfig :=
  { config with ropeNeoxPairing := neox }

section Accepted

variable [FloatOps]

/-- A scaling that reads its optional fields has them. -/
theorem ropeScalingFromConfig_llama3 {config : LlamaModelConfig} {scaling : RopeScaling}
    (h : ropeScalingFromConfig config = .ok scaling) (hkind : scaling.kind = .Llama3) :
    ∃ length low high, scaling.originalContextLength = some length ∧
      scaling.lowFreqFactor = some low ∧ scaling.highFreqFactor = some high := by
  unfold ropeScalingFromConfig at h
  obtain ⟨kind, -, h⟩ := Outcome.bind_eq_ok.mp h
  dsimp only at h
  split at h
  · simp at h
  · rcases kind
    · obtain rfl := Outcome.ok.inj h
      simp at hkind
    · obtain rfl := Outcome.ok.inj h
      simp at hkind
    · obtain ⟨length, -, h⟩ := Outcome.bind_eq_ok.mp h
      split at h
      · simp at h
      · obtain rfl := Outcome.ok.inj h
        exact ⟨_, _, _, rfl, rfl, rfl⟩
    · obtain ⟨length, -, h⟩ := Outcome.bind_eq_ok.mp h
      obtain rfl := Outcome.ok.inj h
      simp at hkind

theorem llama3ScaledRopeFrequency_returns {scaling : RopeScaling} (h : ∃ length low high,
    scaling.originalContextLength = some length ∧ scaling.lowFreqFactor = some low ∧
      scaling.highFreqFactor = some high) (frequency : F32) :
    ∃ theta, llama3ScaledRopeFrequency frequency scaling = .ok theta := by
  obtain ⟨length, low, high, hlength, hlow, hhigh⟩ := h
  unfold llama3ScaledRopeFrequency
  rw [hlength, hlow, hhigh, Outcome.orPanic_some, Outcome.ok_bind, Outcome.orPanic_some,
    Outcome.ok_bind, Outcome.orPanic_some, Outcome.ok_bind]
  dsimp only
  split
  · exact ⟨_, rfl⟩
  · split
    · exact ⟨_, rfl⟩
    · exact ⟨_, rfl⟩

theorem ropePairFrequency_returns {params : RopeParams} {pairIdx : Nat}
    (htable : ∀ freqs, params.ropeFreqs = some freqs → pairIdx < freqs.length)
    (hllama3 : params.scaling.kind = .Llama3 → ∃ length low high,
      params.scaling.originalContextLength = some length ∧
      params.scaling.lowFreqFactor = some low ∧ params.scaling.highFreqFactor = some high) :
    ∃ theta, ropePairFrequency pairIdx params = .ok theta := by
  unfold ropePairFrequency
  dsimp only
  rcases hfreqs : params.ropeFreqs with _ | freqs
  · rcases hkind : params.scaling.kind
    · exact ⟨_, rfl⟩
    · exact ⟨_, rfl⟩
    · exact llama3ScaledRopeFrequency_returns (hllama3 hkind) _
    · exact ⟨_, rfl⟩
  · dsimp only
    rw [List.getElem?_eq_getElem (htable freqs hfreqs)]
    rcases hkind : params.scaling.kind
    · exact ⟨_, rfl⟩
    · exact ⟨_, rfl⟩
    · exact llama3ScaledRopeFrequency_returns (hllama3 hkind) _
    · exact ⟨_, rfl⟩

theorem validateRopeFrequencyTensor_ok {tensor : CpuTensor} {ropeDim : Nat} {freqs : List F32}
    (h : validateRopeFrequencyTensor tensor ropeDim = .ok freqs) :
    tensor.dims = [ropeDim / 2] ∧ tensor.data = freqs := by
  unfold validateRopeFrequencyTensor at h
  dsimp only at h
  split at h
  · simp at h
  · rename_i hdims
    obtain ⟨_, -, h⟩ := Outcome.bind_eq_ok.mp h
    exact ⟨not_not.mp hdims, Outcome.ok.inj h⟩

/-- What the checks of a call leave of its parameters. -/
theorem ropeParams_ok {width headCount : Nat} {config : LlamaModelConfig}
    {ropeFreqs : Option CpuTensor} {params : RopeParams}
    (h : ropeParams width headCount config ropeFreqs = .ok params) :
    params.Fits width ∧ params.headDim = width / headCount ∧
      params.ropeDim = config.ropeDim (width / headCount) ∧
      ropeScalingFromConfig config = .ok params.scaling ∧
      ∀ freqs, params.ropeFreqs = some freqs → ∃ tensor, ropeFreqs = some tensor ∧
        tensor.dims = [params.ropeDim / 2] ∧ tensor.data = freqs := by
  unfold ropeParams at h
  split at h
  · simp at h
  split at h
  · simp at h
  dsimp only at h
  split at h
  · simp at h
  split at h
  · simp at h
  rename_i hheads hwidth hdim _
  have hwhole : width = headCount * (width / headCount) :=
    (Nat.mul_div_cancel' (Nat.dvd_of_mod_eq_zero (not_not.mp hwidth))).symm
  obtain ⟨scaling, hscaling, h⟩ := Outcome.bind_eq_ok.mp h
  rcases ropeFreqs with _ | tensor
  · obtain rfl := Outcome.ok.inj h
    refine ⟨⟨Nat.pos_of_ne_zero hheads, hwhole, ?_, ?_, ?_⟩, rfl, rfl, hscaling,
      fun _ hfreqs => absurd hfreqs (by simp)⟩
    all_goals
      dsimp only
      omega
  · obtain ⟨freqs, hvalid, h⟩ := Outcome.bind_eq_ok.mp h
    obtain rfl := Outcome.ok.inj h
    obtain ⟨hdims, hdata⟩ := validateRopeFrequencyTensor_ok hvalid
    refine ⟨⟨Nat.pos_of_ne_zero hheads, hwhole, ?_, ?_, ?_⟩, rfl, rfl, hscaling,
      fun table htable => ⟨tensor, rfl, hdims, hdata.trans (Option.some.inj htable)⟩⟩
    all_goals
      dsimp only
      omega

/-- The flag of a configuration decides the pairing and nothing else. -/
theorem ropeParams_withNeoxPairing (width headCount : Nat) (config : LlamaModelConfig)
    (ropeFreqs : Option CpuTensor) (neox : Bool) :
    ropeParams width headCount (config.withNeoxPairing neox) ropeFreqs =
      (ropeParams width headCount config ropeFreqs).map fun params =>
        params.withPairing (if neox then .SplitHalf else .AdjacentEvenOdd) := by
  have hscaling : ropeScalingFromConfig (config.withNeoxPairing neox) =
      ropeScalingFromConfig config := rfl
  have hdim (headDim : Nat) : (config.withNeoxPairing neox).ropeDim headDim =
      config.ropeDim headDim := rfl
  have hbase : (config.withNeoxPairing neox).ropeFreqBase = config.ropeFreqBase := rfl
  have hpairing : ropePairingForConfig (config.withNeoxPairing neox) =
      if neox then .SplitHalf else .AdjacentEvenOdd := rfl
  unfold ropeParams
  rw [hscaling, hpairing, hbase]
  simp only [hdim]
  split
  · rfl
  split
  · rfl
  split
  · rfl
  split
  · rfl
  rcases ropeScalingFromConfig config with scaling | e | k
  · rw [Outcome.ok_bind, Outcome.ok_bind]
    rcases ropeFreqs with _ | tensor
    · rfl
    · dsimp only
      rcases validateRopeFrequencyTensor tensor (config.ropeDim (width / headCount)) with
        freqs | e | k
      · rfl
      · rfl
      · rfl
  · rfl
  · rfl

/-- **RoPE rotates each pair once.** A call whose checks pass returns, where the frequency table
has the values its shape says. What it returns is the row after turns that between them write
each dimension below `rope_dim` once, each pair rotated from the values the row had, and
nothing else. The split-half pairing is the adjacent one with the halves interleaved. -/
theorem applyRope_rotates (row : List F32) (position headCount : Nat) (config : LlamaModelConfig)
    (ropeFreqs : Option CpuTensor) :
    ((∀ tensor, ropeFreqs = some tensor → elementCount tensor.dims = .ok tensor.data.length) →
      ∀ params, ropeParams row.length headCount config ropeFreqs = .ok params →
        ∃ out, applyRope row position headCount config ropeFreqs = .ok out) ∧
    (∀ out, applyRope row position headCount config ropeFreqs = .ok out →
      ∃ params, ropeParams row.length headCount config ropeFreqs = .ok params ∧
        params.turns.foldlM (update params.dims (params.rotate position)) row = .ok out ∧
        (∀ i < row.length, (touched params.dims params.turns).count i =
          if i % params.headDim < params.ropeDim then 1 else 0) ∧
        Rotated params position row out) ∧
    (∀ params, ropeParams row.length headCount config ropeFreqs = .ok params →
      applyRope row position headCount (config.withNeoxPairing true) ropeFreqs =
        (applyRope (interleaveHalves params.headDim params.ropeDim row) position headCount
          (config.withNeoxPairing false) ropeFreqs).map
            (separateHalves params.headDim params.ropeDim) ∧
      separateHalves params.headDim params.ropeDim
        (interleaveHalves params.headDim params.ropeDim row) = row ∧
      interleaveHalves params.headDim params.ropeDim
        (separateHalves params.headDim params.ropeDim row) = row) := by
  refine ⟨fun htable params hparams => ?_, fun out hout => ?_, fun params hparams => ?_⟩
  · obtain ⟨hfits, -, -, hscaling, hfreqs⟩ := ropeParams_ok hparams
    unfold applyRope
    rw [hparams, Outcome.ok_bind]
    refine applyRopeToRow_returns hfits fun pairIdx hpair => ?_
    refine ropePairFrequency_returns (fun freqs hsome => ?_) (ropeScalingFromConfig_llama3 hscaling)
    obtain ⟨tensor, hrope, hdims, hdata⟩ := hfreqs freqs hsome
    have hcount := htable tensor hrope
    rw [hdims, hdata] at hcount
    rw [elementCount_eq_ok hcount, List.prod_singleton]
    exact hpair
  · unfold applyRope at hout
    obtain ⟨params, hparams, hout⟩ := Outcome.bind_eq_ok.mp hout
    obtain ⟨hfits, -⟩ := ropeParams_ok hparams
    refine ⟨params, hparams, ?_, fun i hi => RopeParams.count_touched hfits hi,
      applyRopeToRow_ok hfits hout⟩
    rw [← applyRopeToRow_eq_turns row position hfits.heads]
    exact hout
  · obtain ⟨hfits, -⟩ := ropeParams_ok hparams
    refine ⟨?_, interleave_separate hfits⟩
    unfold applyRope
    rw [ropeParams_withNeoxPairing, show (interleaveHalves params.headDim params.ropeDim row).length =
      row.length from length_gather _ _, ropeParams_withNeoxPairing, hparams, Outcome.map_ok,
      Outcome.map_ok, Outcome.ok_bind, Outcome.ok_bind]
    exact applyRopeToRow_splitHalf hfits position

end Accepted

end CamelidEnterprise

import CamelidEnterprise.Engine.ModelConfig
import CamelidEnterprise.Engine.Tensor

/-!
# Camelid Enterprise — rotary position embedding

`crates/engine-core/src/forward/rope.rs`: the checks of a RoPE configuration, its
frequencies, and the rotation of the leading dimensions of every head of a row.

`ropeParams` is the checks of a call, which do not depend on the values of the row, and
`applyRopeToRow` its two loops.
-/

namespace CamelidEnterprise

open Foundation

/-- `RopePairing` -/
inductive RopePairing
  | AdjacentEvenOdd
  | SplitHalf
deriving DecidableEq, Repr

/-- `RopeScalingKind` -/
inductive RopeScalingKind
  | None
  | Linear
  | Llama3
  | Yarn
deriving DecidableEq, Repr

/-- `RopeScaling` -/
structure RopeScaling where
  kind : RopeScalingKind
  factor : F32
  originalContextLength : Option Nat
  lowFreqFactor : Option F32
  highFreqFactor : Option F32
deriving DecidableEq, Repr

/-- `rope_pairing_for_config` -/
def ropePairingForConfig (config : LlamaModelConfig) : RopePairing :=
  if config.ropeNeoxPairing then .SplitHalf else .AdjacentEvenOdd

-- ---------------------------------------------------------------------------
-- Frequency scaling
-- ---------------------------------------------------------------------------

section Scaling

variable [FloatOps]

/-- `YARN_BETA_FAST` -/
def yarnBetaFast : F32 := 32

/-- `YARN_BETA_SLOW` -/
def yarnBetaSlow : F32 := 1

/-- `0.001` -/
def yarnMinWidth : F32 := ⟨0x3a83126f⟩

/-- `0.1` -/
def yarnMagnitudeSlope : F32 := ⟨0x3dcccccd⟩

/-- `yarn_corr_dim` -/
def yarnCorrDim (ropeDim : Nat) (nCtxOrig nRot base : F32) : F32 :=
  F32.ofInt ropeDim * FloatOps.ln (nCtxOrig / (nRot * 2 * F32.pi)) / (2 * FloatOps.ln base)

/-- `yarn_corr_dims` -/
def yarnCorrDims (ropeDim nCtxOrig : Nat) (base : F32) : F32 × F32 :=
  let start := FloatOps.floor (yarnCorrDim ropeDim (F32.ofInt nCtxOrig) yarnBetaFast base)
  let finish := FloatOps.ceil (yarnCorrDim ropeDim (F32.ofInt nCtxOrig) yarnBetaSlow base)
  (FloatOps.max start 0, FloatOps.min finish (F32.ofInt ropeDim - 1))

/-- `yarn_ramp` -/
def yarnRamp (low high : F32) (pairIdx : Nat) : F32 :=
  let y := (F32.ofInt pairIdx - low) / FloatOps.max (high - low) yarnMinWidth
  1 - y.clamp 0 1

/-- `rope_magnitude_scale` -/
def ropeMagnitudeScale (scaling : RopeScaling) : F32 :=
  match scaling.kind with
  | .Yarn => 1 + yarnMagnitudeSlope * FloatOps.ln scaling.factor
  | _ => 1

/-- The kind a scaling type names. -/
def ropeScalingKind (scalingType : Option Str) : EngineResult RopeScalingKind :=
  match scalingType.map Text.trim with
  | none => .ok .None
  | some kind =>
    if kind = [] ∨ kind = "none".toList then .ok .None
    else if kind = "linear".toList then .ok .Linear
    else if kind = "llama3".toList then .ok .Llama3
    else if kind = "yarn".toList then .ok .Yarn
    else
      .err (.InvalidModelMetadata
        s!"unsupported rope.scaling.type {debug kind}; expected none, linear, llama3, or yarn")

/-- The context length a scaling kind starts from. -/
def originalContextLength (config : LlamaModelConfig) (kind : String) : EngineResult Nat :=
  let length := config.ropeScalingOriginalContextLength.getD 8192
  if length = 0 then
    .err (.InvalidModelMetadata
      s!"{kind} RoPE scaling original context length must be greater than zero")
  else .ok length

/-- `rope_scaling_from_config` -/
def ropeScalingFromConfig (config : LlamaModelConfig) : EngineResult RopeScaling := do
  let kind ← ropeScalingKind config.ropeScalingType
  let factor := (config.ropeScalingFactor.map F32.mk).getD 1
  if factor.le 0 ∨ !factor.isFinite then
    .err (.InvalidModelMetadata
      s!"RoPE scaling factor {FloatOps.display factor} must be finite and positive")
  else
    match kind with
    | .None => .ok ⟨kind, 1, none, none, none⟩
    | .Linear => .ok ⟨kind, factor, none, none, none⟩
    | .Llama3 => do
      let length ← originalContextLength config "llama3"
      let low := (config.ropeScalingLowFreqFactor.map F32.mk).getD 1
      let high := (config.ropeScalingHighFreqFactor.map F32.mk).getD 4
      if low.le 0 ∨ high.le 0 ∨ !low.isFinite ∨ !high.isFinite ∨ high.le low then
        .err (.InvalidModelMetadata
          s!"llama3 RoPE scaling frequency factors must be finite, positive, and high > low; got low={FloatOps.display low}, high={FloatOps.display high}")
      else .ok ⟨kind, factor, some length, some low, some high⟩
    | .Yarn => do
      let length ← originalContextLength config "yarn"
      .ok ⟨kind, factor, some length, none, none⟩

/-- `llama3_scaled_rope_frequency` -/
def llama3ScaledRopeFrequency (frequency : F32) (scaling : RopeScaling) : EngineResult F32 := do
  let original ← Outcome.orPanic scaling.originalContextLength
  let length := F32.ofInt original
  let low ← Outcome.orPanic scaling.lowFreqFactor
  let high ← Outcome.orPanic scaling.highFreqFactor
  let wavelength := 2 * F32.pi / frequency
  let lowFreqWavelength := length / low
  let highFreqWavelength := length / high
  if wavelength.lt highFreqWavelength then .ok frequency
  else if lowFreqWavelength.lt wavelength then .ok (frequency / scaling.factor)
  else
    let smooth := (length / wavelength - low) / (high - low)
    .ok ((1 - smooth) * frequency / scaling.factor + smooth * frequency)

-- ---------------------------------------------------------------------------
-- Rotation
-- ---------------------------------------------------------------------------

/-- `RopeParams` -/
structure RopeParams where
  headCount : Nat
  headDim : Nat
  ropeDim : Nat
  freqBase : F32
  pairing : RopePairing
  scaling : RopeScaling
  ropeFreqs : Option (List F32)

/-- `rope_pair_frequency` -/
def ropePairFrequency (pairIdx : Nat) (params : RopeParams) : EngineResult F32 := do
  let baseFrequency :=
    FloatOps.powf params.freqBase (-(F32.ofInt pairIdx * 2) / F32.ofInt params.ropeDim)
  -- a stored factor divides the frequency of its pair
  let effective ← match params.ropeFreqs with
    | some ropeFreqs => do
      let factor ← Outcome.orPanic ropeFreqs[pairIdx]?
      .ok (baseFrequency / factor)
    | none => .ok baseFrequency
  match params.scaling.kind with
  | .None => .ok effective
  | .Linear => .ok (effective / params.scaling.factor)
  | .Llama3 => llama3ScaledRopeFrequency effective params.scaling
  | .Yarn =>
    let nCtxOrig := params.scaling.originalContextLength.getD 8192
    let (low, high) := yarnCorrDims params.ropeDim nCtxOrig params.freqBase
    let rampMix := yarnRamp low high pairIdx
    let interp := effective / params.scaling.factor
    .ok (interp * (1 - rampMix) + effective * rampMix)

/-- The two dimensions of a pair, from the start of its head on. -/
def RopeParams.pairDims (params : RopeParams) (pairIdx : Nat) : Nat × Nat :=
  match params.pairing with
  | .AdjacentEvenOdd => (pairIdx * 2, pairIdx * 2 + 1)
  | .SplitHalf => (pairIdx, pairIdx + params.ropeDim / 2)

/-- One pair of one head, rotated forward. -/
def rotatePair (sin cos : F32) (dim0 dim1 : Nat) (data : List F32) : EngineResult (List F32) := do
  let x0 ← Outcome.orPanic data[dim0]?
  let x1 ← Outcome.orPanic data[dim1]?
  .ok ((data.set dim0 (x0 * cos - x1 * sin)).set dim1 (x0 * sin + x1 * cos))

/-- `apply_rope_to_row` -/
def applyRopeToRow (data : List F32) (position : Nat) (params : RopeParams) :
    EngineResult (List F32) :=
  let mscale := ropeMagnitudeScale params.scaling
  (List.range (params.ropeDim / 2)).foldlM (fun data pairIdx => do
    let theta ← ropePairFrequency pairIdx params
    let angle := F32.ofInt position * theta
    let sin := FloatOps.sin angle * mscale
    let cos := FloatOps.cos angle * mscale
    (List.range params.headCount).foldlM (fun data head =>
      let headStart := head * params.headDim
      let (dim0, dim1) := params.pairDims pairIdx
      rotatePair sin cos (headStart + dim0) (headStart + dim1) data) data) data

/-- A table of frequency factors holds only finite positive ones. -/
def checkFrequencyFactors (frequencies : List F32) : EngineResult Unit :=
  match frequencies.zipIdx.find? fun (frequency, _) => frequency.le 0 || !frequency.isFinite with
  | some (frequency, idx) =>
    .err (.InvalidModelMetadata
      s!"rope_freqs.weight[{idx}] frequency factor {FloatOps.display frequency} must be finite and positive")
  | none => .ok ()

/-- `validate_rope_frequency_tensor` -/
def validateRopeFrequencyTensor (ropeFreqs : CpuTensor) (ropeDim : Nat) :
    EngineResult (List F32) := do
  let expectedCount := ropeDim / 2
  if ropeFreqs.dims ≠ [expectedCount] then
    .err (.InvalidModelMetadata
      s!"rope_freqs.weight expected shape [{expectedCount}], got {debugDims ropeFreqs.dims}")
  else do
    checkFrequencyFactors ropeFreqs.data
    .ok ropeFreqs.data

/-- `config.rope_dimension_count.unwrap_or(head_dim as u32) as usize` -/
def LlamaModelConfig.ropeDim (config : LlamaModelConfig) (headDim : Nat) : Nat :=
  config.ropeDimensionCount.getD (headDim % 2 ^ 32)

/-- The parameters of a rotation, and the checks of `apply_rope`. -/
def ropeParams (width headCount : Nat) (config : LlamaModelConfig) (ropeFreqs : Option CpuTensor) :
    EngineResult RopeParams := do
  if headCount = 0 then .err (.ShapeMismatch "RoPE head count must be greater than zero")
  else if width % headCount ≠ 0 then
    .err (.ShapeMismatch
      s!"RoPE input width {width} is not divisible by head count {headCount}")
  else
    let headDim := width / headCount
    let ropeDim := config.ropeDim headDim
    let freqBase := (config.ropeFreqBase.map F32.mk).getD 10000
    if ropeDim = 0 ∨ ropeDim > headDim ∨ ropeDim % 2 ≠ 0 then
      .err (.InvalidModelMetadata
        s!"RoPE dimension count {ropeDim} must be even and within head dimension {headDim}")
    else if freqBase.le 0 ∨ !freqBase.isFinite then
      .err (.InvalidModelMetadata
        s!"RoPE frequency base {FloatOps.display freqBase} must be finite and positive")
    else do
      let scaling ← ropeScalingFromConfig config
      let ropeFreqs ← match ropeFreqs with
        | some freqs => do
          let frequencies ← validateRopeFrequencyTensor freqs ropeDim
          .ok (some frequencies)
        | none => .ok none
      .ok
        { headCount, headDim, ropeDim, freqBase
          pairing := ropePairingForConfig config
          scaling, ropeFreqs }

/-- `apply_rope` -/
def applyRope (row : List F32) (position headCount : Nat) (config : LlamaModelConfig)
    (ropeFreqs : Option CpuTensor) : EngineResult (List F32) := do
  let params ← ropeParams row.length headCount config ropeFreqs
  applyRopeToRow row position params

end Scaling

end CamelidEnterprise

import CamelidEnterprise.Engine.CausalRun

/-!
# Camelid Enterprise — sessions with failing calls

A session goes on after a `forward_token` call that failed: the caller may hand the
same decoder the next token. Two caches are twins when they represent the same rows
and have the same room; whatever else they hold, a call returns the same on both
(`Twins.call`), and a call that fails leaves a twin of the cache before it. By
induction over the calls, `failed_calls_leave_no_trace`.
-/

namespace CamelidEnterprise

open Foundation

-- ---------------------------------------------------------------------------
-- Sessions
-- ---------------------------------------------------------------------------

/-- A call of a session: what it returned, and the position after it. -/
structure CallRecord (Λ : Type) where
  call : ForwardCall
  result : EngineResult (Option Λ)
  position : Nat
deriving DecidableEq

/-- The call returned, with or without logits. -/
def CallRecord.succeeded {Λ : Type} (record : CallRecord Λ) : Bool :=
  match record.result with
  | .ok _ => true
  | _ => false

/-- All the calls of a session, whatever they return. -/
def ForwardPass.session {δ Λ : Type} (pass : ForwardPass δ Λ) :
    List ForwardCall → δ → List (CallRecord Λ) × δ
  | [], decoder => ([], decoder)
  | call :: calls, decoder =>
    let answered := pass.forwardToken call.token call.computeLogits decoder
    let rest := pass.session calls answered.2
    (⟨call, answered.1, pass.position answered.2⟩ :: rest.1, rest.2)

theorem ForwardPass.session_cons {δ Λ : Type} (pass : ForwardPass δ Λ) (call : ForwardCall)
    (calls : List ForwardCall) (decoder : δ) :
    let answered := pass.forwardToken call.token call.computeLogits decoder
    pass.session (call :: calls) decoder =
      (⟨call, answered.1, pass.position answered.2⟩ :: (pass.session calls answered.2).1,
        (pass.session calls answered.2).2) := rfl

namespace DenseModel

variable [FloatOps] {model : DenseModel}

-- ---------------------------------------------------------------------------
-- Twins
-- ---------------------------------------------------------------------------

/-- The caches represent the same rows, and have the same room. -/
structure Twins (model : DenseModel) (kv twin : LlamaKvCache) : Prop where
  represented : ∃ histories, model.Represents kv histories ∧ model.Represents twin histories
  position_eq : twin.position = kv.position
  room_eq : model.room twin = model.room kv

theorem Represents.twins {kv : LlamaKvCache} {histories : List (List HeadRows)}
    (h : model.Represents kv histories) : model.Twins kv kv :=
  ⟨⟨histories, h, h⟩, rfl, rfl⟩

/-- A cache whose rows below the position are the same is a twin, whatever the
others are. -/
theorem Twins.of_unchanged {kv kv' stale : LlamaKvCache} (h : model.Twins kv' kv)
    (hunchanged : kv.Unchanged stale fun _ p => kv.position ≤ p) : model.Twins kv stale := by
  obtain ⟨histories, -, hrep⟩ := h.represented
  refine ⟨⟨histories, hrep, ?_⟩, hunchanged.position_eq, ?_⟩
  · refine ⟨hunchanged.fits, hunchanged.plan_eq.trans hrep.plan_eq, hrep.length_eq, ?_⟩
    intro i history hget
    obtain ⟨hlen, hholds⟩ := hrep.held i history hget
    have hi : i < histories.length := (List.getElem?_eq_some_iff.mp hget).1
    have hlayers : kv.plan.layerCount = model.weights.layers.length := by
      rw [hrep.plan_eq]
      exact model.layers_length.symm
    rw [hunchanged.position_eq]
    refine ⟨hlen, hunchanged.holds (by rw [hlayers, ← hrep.length_eq]; exact hi) ?_ hholds⟩
    intro p hp htouched
    omega
  · exact room_congr hunchanged.plan_eq hunchanged.position_eq hunchanged.allocated_eq

/-- A call returns the same on twins, and leaves twins. Where it fails, it leaves a
twin of what it was called on. -/
theorem Twins.call {kv twin : LlamaKvCache} (h : model.Twins kv twin) (call : ForwardCall) :
    let answered := model.forwardPass.forwardToken call.token call.computeLogits kv
    let answered' := model.forwardPass.forwardToken call.token call.computeLogits twin
    answered'.1 = answered.1 ∧ model.Twins answered.2 answered'.2 ∧
      ((∀ answer, answered.1 ≠ .ok answer) → model.Twins answered.2 twin) := by
  dsimp only
  obtain ⟨histories, hrep, hrep'⟩ := h.represented
  obtain ⟨kv₁, hrun, hdone, hfailed⟩ := forwardToken_run hrep call.token call.computeLogits
  obtain ⟨twin₁, hrun', hdone', hfailed'⟩ := forwardToken_run hrep' call.token call.computeLogits
  have hturn : model.turn twin histories call.token call.computeLogits =
      model.turn kv histories call.token call.computeLogits := by
    unfold turn
    rw [h.room_eq]
  rw [hturn] at hrun' hdone' hfailed'
  rw [hrun, hrun']
  dsimp only
  by_cases hok : ∃ out, model.turn kv histories call.token call.computeLogits = .ok out
  · obtain ⟨out, hout⟩ := hok
    obtain ⟨hnext, hposition, hroom, -⟩ := hdone out hout
    obtain ⟨hnext', hposition', hroom', -⟩ := hdone' out hout
    have hsame := h.position_eq
    have hallocated : kv₁.allocatedSequenceLength = twin₁.allocatedSequenceLength := by
      rw [h.room_eq, hroom] at hroom'
      exact Outcome.ok.inj hroom'
    have hadvanced : twin₁.position = kv₁.position := by omega
    refine ⟨rfl, ⟨⟨_, hnext, hnext'⟩, hadvanced, ?_⟩, ?_⟩
    · exact room_congr (hnext'.plan_eq.trans hnext.plan_eq.symm) hadvanced hallocated.symm
    · intro hfails
      rw [hout] at hfails
      exact absurd rfl (hfails _)
  · have hok : ∀ out, model.turn kv histories call.token call.computeLogits ≠ .ok out := by
      intro out hout
      exact hok ⟨out, hout⟩
    obtain ⟨hkept, hposition, hroom⟩ := hfailed hok
    obtain ⟨hkept', hposition', hroom'⟩ := hfailed' hok
    have hsame := h.position_eq
    have hroomEq := h.room_eq
    refine ⟨rfl, ⟨⟨_, hkept, hkept'⟩, by omega, ?_⟩, fun _ => ⟨⟨_, hkept, hrep'⟩, by omega, ?_⟩⟩
    · rw [hroom', hroom, hroomEq]
    · rw [hroom, hroomEq]

/-- A session returns the same on twins, and leaves twins. -/
theorem Twins.session {kv twin : LlamaKvCache} (h : model.Twins kv twin)
    (calls : List ForwardCall) :
    (model.forwardPass.session calls twin).1 = (model.forwardPass.session calls kv).1 ∧
      model.Twins (model.forwardPass.session calls kv).2
        (model.forwardPass.session calls twin).2 := by
  induction calls generalizing kv twin with
  | nil => exact ⟨rfl, h⟩
  | cons call calls ih =>
    obtain ⟨hresult, hafter, -⟩ := h.call call
    obtain ⟨hrest, hlast⟩ := ih hafter
    have hposition : model.forwardPass.position
          (model.forwardPass.forwardToken call.token call.computeLogits twin).2 =
        model.forwardPass.position
          (model.forwardPass.forwardToken call.token call.computeLogits kv).2 := hafter.position_eq
    rw [ForwardPass.session_cons, ForwardPass.session_cons]
    dsimp only
    rw [hresult, hposition, hrest]
    exact ⟨rfl, hlast⟩

/-- The calls of a session that succeed do the same without the others. -/
theorem Twins.session_kept {kv twin : LlamaKvCache} (h : model.Twins kv twin)
    (calls : List ForwardCall) :
    let run := model.forwardPass.session calls kv
    let kept := run.1.filter CallRecord.succeeded
    let rerun := model.forwardPass.session (kept.map CallRecord.call) twin
    rerun.1 = kept ∧ model.Twins run.2 rerun.2 := by
  dsimp only
  induction calls generalizing kv twin with
  | nil => exact ⟨rfl, h⟩
  | cons call calls ih =>
    obtain ⟨hresult, hafter, hfailed⟩ := h.call call
    rw [ForwardPass.session_cons]
    dsimp only
    rcases hanswered : model.forwardPass.forwardToken call.token call.computeLogits kv with
      ⟨result, kv₁⟩
    rw [hanswered] at hresult hafter hfailed
    dsimp only at hresult hafter hfailed ⊢
    by_cases hok : ∃ answer, result = .ok answer
    · obtain ⟨answer, rfl⟩ := hok
      obtain ⟨hrest, hlast⟩ := ih hafter
      have hposition : model.forwardPass.position
            (model.forwardPass.forwardToken call.token call.computeLogits twin).2 =
          model.forwardPass.position kv₁ := hafter.position_eq
      rw [List.filter_cons_of_pos rfl, List.map_cons, ForwardPass.session_cons]
      dsimp only
      rw [hresult, hposition, hrest]
      exact ⟨rfl, hlast⟩
    · -- the call failed: the session without it is where it was
      have hfails : ∀ answer, result ≠ .ok answer := by
        intro answer hanswer
        exact hok ⟨answer, hanswer⟩
      have hdropped : CallRecord.succeeded
          ⟨call, result, model.forwardPass.position kv₁⟩ = false := by
        unfold CallRecord.succeeded
        rcases result with answer | e | fault
        · exact absurd rfl (hfails answer)
        · rfl
        · rfl
      rw [List.filter_cons_of_neg (by rw [hdropped]; decide)]
      exact ih (hfailed hfails)

-- ---------------------------------------------------------------------------
-- No trace
-- ---------------------------------------------------------------------------

/-- **A failed call leaves no trace.** In a session on a new decoder, the calls that
succeed return the same results at the same positions when the others are left out.
And the rows from the position on, where a failed call may have stored some, are
overwritten before they are read: with anything else in their place, all further
calls return the same. -/
theorem failed_calls_leave_no_trace {kv₀ : LlamaKvCache} (hfresh : model.Fresh kv₀)
    (calls : List ForwardCall) :
    let run := model.forwardPass.session calls kv₀
    let kept := run.1.filter CallRecord.succeeded
    let rerun := model.forwardPass.session (kept.map CallRecord.call) kv₀
    rerun.1 = kept ∧ rerun.2.position = run.2.position ∧
      ∀ stale, (run.2.Unchanged stale fun _ p => run.2.position ≤ p) → ∀ further,
        (model.forwardPass.session further stale).1 =
          (model.forwardPass.session further run.2).1 := by
  dsimp only
  obtain ⟨hkept, hlast⟩ := hfresh.represents.twins.session_kept calls
  refine ⟨hkept, hlast.position_eq, ?_⟩
  intro stale hunchanged further
  obtain ⟨-, hself⟩ := hfresh.represents.twins.session calls
  exact ((Twins.of_unchanged hself hunchanged).session further).1

end DenseModel

/-- A token id out of range, and a call past the context length. -/
theorem DenseModel.failed_calls_leave_no_trace_small :
    letI := unitOps
    (smallModel.forwardPass.session [⟨1, false⟩, ⟨0, true⟩] smallCache).1 =
      (smallModel.forwardPass.session [⟨1, false⟩, ⟨7, true⟩, ⟨0, true⟩, ⟨0, false⟩]
        smallCache).1.filter CallRecord.succeeded := by
  let : FloatOps := unitOps
  have hcalls : ((smallModel.forwardPass.session [⟨1, false⟩, ⟨7, true⟩, ⟨0, true⟩, ⟨0, false⟩]
      smallCache).1.filter CallRecord.succeeded).map CallRecord.call = [⟨1, false⟩, ⟨0, true⟩] := by
    decide +kernel
  have hkept := (failed_calls_leave_no_trace smallModel_fresh
    [⟨1, false⟩, ⟨7, true⟩, ⟨0, true⟩, ⟨0, false⟩]).1
  rw [hcalls] at hkept
  exact hkept

end CamelidEnterprise

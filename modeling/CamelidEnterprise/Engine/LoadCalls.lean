import CamelidEnterprise.Engine.GgufWire
import CamelidEnterprise.Engine.Load

/-!
# Camelid Enterprise — what a load asks of its file

`load_with_q8_projection` of `crates/engine-core/src/runtime.rs` opens its file by path again for
every tensor: each call of `tensor_bytes` has an answer of its own, and what is loaded is made of
the answers.

* `LoadsBy` — a load comes to a value by these calls, with these answers, in this order;
* `LoadsBy.sound` — with the answers of one file, it is the value of the load of that file;
* `readsTensors_build` — a load that succeeds has such calls.
-/

namespace CamelidEnterprise

open Foundation
open Gguf

/-- A call of `tensor_bytes`: the name, and the bytes it returned. -/
abbrev TensorCall := Str × List UInt8

/-- The load comes to a value by calls of `tensor_bytes`, and otherwise by what it knows of the
descriptors. -/
inductive LoadsBy (descriptors : List TensorDescriptor) :
    {α : Type} → (TensorStore → EngineResult α) → List TensorCall → α → Prop
  | known {α : Type} {load : TensorStore → EngineResult α} {value : α}
      (h : ∀ path file, load ⟨path, file, descriptors⟩ = .ok value) :
      LoadsBy descriptors load [] value
  | tensorBytes (name : Str) (bytes : List UInt8) :
      LoadsBy descriptors (fun store => store.tensorBytes name) [(name, bytes)] bytes
  | bind {α β : Type} {load : TensorStore → EngineResult α}
      {rest : α → TensorStore → EngineResult β} {calls calls' : List TensorCall} {a : α} {b : β}
      (hload : LoadsBy descriptors load calls a) (hrest : LoadsBy descriptors (rest a) calls' b) :
      LoadsBy descriptors (fun store => load store >>= fun a => rest a store) (calls ++ calls') b

/-- With the answers of one store, the value is that of the load from it. -/
theorem LoadsBy.sound {descriptors : List TensorDescriptor} {α : Type}
    {load : TensorStore → EngineResult α} {calls : List TensorCall} {value : α}
    (h : LoadsBy descriptors load calls value) {path : String} {file : List UInt8}
    (hanswers : ∀ call ∈ calls,
      TensorStore.tensorBytes ⟨path, file, descriptors⟩ call.1 = .ok call.2) :
    load ⟨path, file, descriptors⟩ = .ok value := by
  induction h with
  | known h => exact h path file
  | tensorBytes name bytes => exact hanswers (name, bytes) List.mem_cons_self
  | bind _ _ ihload ihrest =>
    refine Outcome.bind_eq_ok.mpr ⟨_, ihload fun call hcall => ?_, ihrest fun call hcall => ?_⟩
    · exact hanswers call (List.mem_append_left _ hcall)
    · exact hanswers call (List.mem_append_right _ hcall)

/-- A load asks its file by `tensor_bytes` only. -/
def ReadsTensors {α : Type} (load : TensorStore → EngineResult α) : Prop :=
  ∀ store value, load store = .ok value → ∃ calls, LoadsBy store.descriptors load calls value ∧
    ∀ call ∈ calls, store.tensorBytes call.1 = .ok call.2

namespace ReadsTensors

variable {α β : Type}

theorem const (result : EngineResult α) : ReadsTensors fun _ => result := fun _ _ h =>
  ⟨[], .known fun _ _ => h, fun _ hcall => absurd hcall List.not_mem_nil⟩

theorem descriptor (name : Str) : ReadsTensors fun store => store.descriptor name := fun _ _ h =>
  ⟨[], .known fun _ _ => h, fun _ hcall => absurd hcall List.not_mem_nil⟩

theorem tensorBytes (name : Str) : ReadsTensors fun store => store.tensorBytes name := by
  intro store bytes h
  refine ⟨[(name, bytes)], .tensorBytes name bytes, fun call hcall => ?_⟩
  rw [List.mem_singleton.mp hcall]
  exact h

theorem bind {load : TensorStore → EngineResult α} {rest : α → TensorStore → EngineResult β}
    (hload : ReadsTensors load) (hrest : ∀ a, ReadsTensors (rest a)) :
    ReadsTensors fun store => load store >>= fun a => rest a store := by
  intro store value h
  obtain ⟨a, ha, h⟩ := Outcome.bind_eq_ok.mp h
  obtain ⟨calls, hloads, hanswers⟩ := hload store a ha
  obtain ⟨calls', hloads', hanswers'⟩ := hrest a store value h
  refine ⟨calls ++ calls', hloads.bind hloads', fun call hcall => ?_⟩
  rcases List.mem_append.mp hcall with hcall | hcall
  · exact hanswers call hcall
  · exact hanswers' call hcall

theorem ite {c : Prop} [Decidable c] {load load' : TensorStore → EngineResult α}
    (h : ReadsTensors load) (h' : ReadsTensors load') :
    ReadsTensors fun store => if c then load store else load' store := by
  by_cases hc : c
  · simpa only [if_pos hc] using h
  · simpa only [if_neg hc] using h'

theorem map {load : TensorStore → EngineResult α} (hload : ReadsTensors load) (f : α → β) :
    ReadsTensors fun store => f <$> load store := by
  have hbind := hload.bind fun a => const (.ok (f a))
  have heq : (fun store => f <$> load store) =
      fun store => load store >>= fun a => (.ok (f a) : EngineResult β) := by
    funext store
    cases load store with
    | ok a => rfl
    | err e => rfl
    | fault k => rfl
  rw [heq]
  exact hbind

theorem mapM {load : α → TensorStore → EngineResult β} (hload : ∀ a, ReadsTensors (load a)) :
    ∀ as : List α, ReadsTensors fun store => as.mapM fun a => load a store
  | [] => by
    simp only [List.mapM_nil]
    exact const _
  | a :: as => by
    simp only [List.mapM_cons]
    exact (hload a).bind fun b => (mapM hload as).bind fun bs => const _

end ReadsTensors

-- ---------------------------------------------------------------------------
-- The loaders
-- ---------------------------------------------------------------------------

section Loaders

variable [FloatOps]

theorem readsTensors_loadCpuF32 (name : Str) : ReadsTensors fun store => store.loadCpuF32 name := by
  unfold TensorStore.loadCpuF32
  refine (ReadsTensors.descriptor name).bind fun desc => ?_
  exact (ReadsTensors.tensorBytes name).bind fun bytes => .const _

theorem readsTensors_loadQ8_0BlockBackedLinearAs (sourceName tensorName : Str) :
    ReadsTensors fun store => store.loadQ8_0BlockBackedLinearAs sourceName tensorName := by
  unfold TensorStore.loadQ8_0BlockBackedLinearAs
  refine (ReadsTensors.descriptor sourceName).bind fun desc => .ite ?_ ?_
  · exact (readsTensors_loadCpuF32 sourceName).bind fun tensor => .const _
  · refine (ReadsTensors.const _).bind fun expectedElements => ?_
    exact (ReadsTensors.tensorBytes sourceName).bind fun bytes => .const _

theorem readsTensors_loadQ8_0BlockBackedLinear (name : Str) :
    ReadsTensors fun store => store.loadQ8_0BlockBackedLinear name :=
  readsTensors_loadQ8_0BlockBackedLinearAs name name

theorem readsTensors_loadOptional (desc : Option TensorDescriptor) :
    ReadsTensors fun store => store.loadOptional desc := by
  cases desc with
  | none => exact .const _
  | some desc => exact (readsTensors_loadCpuF32 desc.name).map some

theorem readsTensors_layer (layer : LlamaLayerTensors) :
    ReadsTensors fun store => LlamaLayerWeights.load store layer := by
  unfold LlamaLayerWeights.load
  refine (readsTensors_loadOptional _).bind fun _ => (readsTensors_loadOptional _).bind fun _ => ?_
  refine (readsTensors_loadCpuF32 _).bind fun _ => ?_
  refine (readsTensors_loadQ8_0BlockBackedLinear _).bind fun _ => ?_
  refine (readsTensors_loadQ8_0BlockBackedLinear _).bind fun _ => ?_
  refine (readsTensors_loadQ8_0BlockBackedLinear _).bind fun _ => ?_
  refine (readsTensors_loadQ8_0BlockBackedLinear _).bind fun _ => ?_
  refine (readsTensors_loadCpuF32 _).bind fun _ => ?_
  refine (readsTensors_loadQ8_0BlockBackedLinear _).bind fun _ => ?_
  refine (readsTensors_loadQ8_0BlockBackedLinear _).bind fun _ => ?_
  exact (readsTensors_loadQ8_0BlockBackedLinear _).bind fun _ => .const _

theorem readsTensors_loadOutput (binding : LlamaTensorBinding) :
    ReadsTensors fun store => loadOutput store binding := by
  unfold loadOutput
  exact .ite (readsTensors_loadQ8_0BlockBackedLinearAs _ _)
    (readsTensors_loadQ8_0BlockBackedLinear _)

theorem readsTensors_weights (binding : LlamaTensorBinding) :
    ReadsTensors fun store => LlamaWeights.load store binding := by
  unfold LlamaWeights.load
  refine (readsTensors_loadQ8_0BlockBackedLinear _).bind fun stored => ?_
  refine (ReadsTensors.const _).bind fun _ => ?_
  refine (readsTensors_loadCpuF32 _).bind fun _ => ?_
  refine (readsTensors_loadOutput binding).bind fun _ => ?_
  refine (readsTensors_loadOptional _).bind fun _ => ?_
  exact (ReadsTensors.mapM readsTensors_layer binding.layers).bind fun _ => .const _

/-- What `load_with_q8_projection` does behind the header. -/
def LoadedDense.build (gguf : GgufFile) (projection : Q8Projection) (store : TensorStore) :
    EngineResult LoadedDense := do
  let _ ← Outcome.okOr
    (.InvalidModelMetadata "required metadata general.architecture is missing") gguf.architecture
  let config ← LlamaModelConfig.fromGguf gguf
  let tokenizer ← Tokenizer.fromGguf gguf
  expandFusedDenseTensors gguf config
  let binding ← LlamaTensorBinding.bind gguf config
  let weights ← LlamaWeights.load store binding
  LoadedDense.fromComponents config tokenizer weights projection

theorem LoadedDense.load_eq (path : String) (file : List UInt8) (projection : Q8Projection) :
    LoadedDense.load path file projection =
      readMetadataWithLen file (.ofNat file.length) >>= fun gguf =>
        LoadedDense.build gguf projection (TensorStore.ofHeader path file gguf) := rfl

theorem readsTensors_build (gguf : GgufFile) (projection : Q8Projection) :
    ReadsTensors (LoadedDense.build gguf projection) := by
  unfold LoadedDense.build
  refine (ReadsTensors.const _).bind fun _ => (ReadsTensors.const _).bind fun config => ?_
  refine (ReadsTensors.const _).bind fun tokenizer => (ReadsTensors.const _).bind fun _ => ?_
  refine (ReadsTensors.const _).bind fun binding => ?_
  exact (readsTensors_weights binding).bind fun _ => .const _

end Loaders

-- ---------------------------------------------------------------------------
-- The header
-- ---------------------------------------------------------------------------

/-- A header that was read is read the same when more of the file comes. -/
theorem Gguf.readMetadataWithLen_append {bytes : List UInt8} {declaredLen : UInt64}
    {gguf : GgufFile} (h : readMetadataWithLen bytes declaredLen = .ok gguf) (more : List UInt8) :
    readMetadataWithLen (bytes ++ more) declaredLen = .ok gguf := by
  rw [readMetadataWithLen_eq] at h
  obtain ⟨⟨header, cursor⟩, hread, hplace⟩ := Outcome.bind_eq_ok.mp h
  obtain ⟨taken, hbytes, hpos, htakes, -⟩ := built_readHeader.streams hread
  dsimp only at hbytes hpos hplace
  rw [UInt64.toNat_zero, Nat.zero_add] at hpos
  have hlt : (0 : UInt64).toNat + taken.length < 2 ^ 64 := by
    rw [UInt64.toNat_zero, Nat.zero_add, ← hpos]
    exact cursor.pos.toNat_lt
  have hend : (0 : UInt64) + .ofNat taken.length = cursor.pos := by
    rw [← UInt64.toNat_inj, toNat_advance hlt, UInt64.toNat_zero, Nat.zero_add, hpos]
  rw [readMetadataWithLen_eq, hbytes, List.append_assoc, htakes _ 0 hlt, Outcome.ok_bind, hend]
  exact hplace

end CamelidEnterprise

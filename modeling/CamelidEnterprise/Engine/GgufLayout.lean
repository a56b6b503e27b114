import Mathlib.Data.List.Chain
import CamelidEnterprise.Engine.Gguf

/-!
# Camelid Enterprise — what an accepted GGUF header guarantees

A header reaches the rest of the engine only through `readMetadataWithLen`, and
its counts, dimensions, offsets and alignment are whatever the file says. This
module states what acceptance gives:

* `Reads` — a reader of the cursor never faults, and moves its position by
  exactly the bytes it took, as every `Built` one does;
* `tensorNbytes_eq_ok`, `alignTo_eq_ok` — the two pieces of arithmetic, read on
  the natural numbers their words stand for;
* `placeTensors_eq_ok` — the placement loop lays its tensors out as a `Tiled`
  sequence of spans that ends inside the file;
* `readMetadataWithLen_wellLaidOut` — the parse as a whole.
-/

namespace CamelidEnterprise.Gguf

open Foundation Foundation.Word

/-! ## Readers -/

/-- A reader that returns on every input, and whose cursor accounts for every
byte it took. -/
structure Reads {α : Type} (read : Cursor → EngineResult (α × Cursor)) : Prop where
  noFault : ∀ cursor, (read cursor).NoFault
  advances : ∀ {cursor value next}, read cursor = .ok (value, next) →
    ∃ taken, cursor.remaining = taken ++ next.remaining ∧
      next.pos.toNat = cursor.pos.toNat + taken.length

/-- A cursor over `bytes`: it stands where its position says. -/
def Cursor.Over (bytes : List UInt8) (cursor : Cursor) : Prop :=
  ∃ taken, bytes = taken ++ cursor.remaining ∧ cursor.pos.toNat = taken.length

namespace Reads

variable {α β : Type}

theorem standsOver {read : Cursor → EngineResult (α × Cursor)} (hread : Reads read)
    {bytes : List UInt8} {cursor next : Cursor} {value : α} (hover : cursor.Over bytes)
    (h : read cursor = .ok (value, next)) : next.Over bytes := by
  obtain ⟨before, hbefore, hpos⟩ := hover
  obtain ⟨taken, htaken, hnext⟩ := hread.advances h
  refine ⟨before ++ taken, ?_, ?_⟩
  · rw [hbefore, htaken, List.append_assoc]
  · rw [hnext, hpos, List.length_append]

theorem ok (value : α) : Reads fun cursor => .ok (value, cursor) where
  noFault _ := Outcome.noFault_ok _
  advances := by
    intro cursor value' next h
    obtain ⟨-, rfl⟩ := Prod.mk.inj (Outcome.ok.inj h)
    exact ⟨[], rfl, rfl⟩

theorem err (e : EngineError) : Reads fun _ => (.err e : EngineResult (α × Cursor)) where
  noFault _ := Outcome.noFault_err _
  advances h := by cases h

/-- Two readers in a row take what the first took, then what the second took. -/
theorem bind {read : Cursor → EngineResult (α × Cursor)}
    {rest : α × Cursor → EngineResult (β × Cursor)} (hread : Reads read)
    (hrest : ∀ value, Reads fun cursor => rest (value, cursor)) :
    Reads fun cursor => read cursor >>= rest where
  noFault cursor := by
    refine (hread.noFault cursor).bind ?_
    rintro ⟨value, next⟩ -
    exact (hrest value).noFault next
  advances := by
    intro cursor value next h
    obtain ⟨⟨value', mid⟩, hfirst, hsecond⟩ := Outcome.bind_eq_ok.mp h
    obtain ⟨taken, hbytes, hpos⟩ := hread.advances hfirst
    obtain ⟨taken', hbytes', hpos'⟩ := (hrest value').advances hsecond
    refine ⟨taken ++ taken', ?_, ?_⟩
    · rw [hbytes, hbytes', List.append_assoc]
    · rw [hpos', hpos, List.length_append, Nat.add_assoc]

/-- A reader may work on a value it has without touching the cursor. -/
theorem bindValue {value : EngineResult α} {rest : α → Cursor → EngineResult (β × Cursor)}
    (hvalue : value.NoFault) (hrest : ∀ a, Reads (rest a)) :
    Reads fun cursor => value >>= fun a => rest a cursor where
  noFault cursor := hvalue.bind fun a _ => (hrest a).noFault cursor
  advances := by
    intro cursor b next h
    obtain ⟨a, -, ha⟩ := Outcome.bind_eq_ok.mp h
    exact (hrest a).advances ha

end Reads

namespace Cursor

/-- A length of the source is a 64-bit word, so its cast into the position is exact. -/
theorem reads_readBytes {n : Nat} (hn : n < 2 ^ 64) : Reads fun cursor => cursor.readBytes n where
  noFault cursor := by
    show (readBytes cursor n).NoFault
    unfold readBytes
    split
    · exact (Outcome.noFault_okOr _ _).bind fun _ _ => Outcome.noFault_ok _
    · exact Outcome.noFault_err _
  advances := by
    intro cursor value next h
    simp only [readBytes] at h
    split at h
    · rename_i hlen
      obtain ⟨pos, hpos, hval⟩ := Outcome.bind_eq_ok.mp h
      obtain ⟨rfl, rfl⟩ := Prod.mk.inj (Outcome.ok.inj hval)
      refine ⟨cursor.remaining.take n, (List.take_append_drop n _).symm, ?_⟩
      rw [checkedAdd_eq_some.mp (Outcome.okOr_eq_ok.mp hpos), List.length_take,
        Nat.min_eq_left hlen, UInt64.toNat_ofNat_of_lt' hn]
    · cases h

end Cursor

/-- A reader put together from `readBytes` alone, checking and computing with what
it read on the way. -/
inductive Built : {α : Type} → (Cursor → EngineResult (α × Cursor)) → Prop
  | ok {α : Type} (value : α) : Built fun cursor => .ok (value, cursor)
  | err {α : Type} (e : EngineError) : Built fun _ => (.err e : EngineResult (α × Cursor))
  | readBytes {n : Nat} (hn : n < 2 ^ 64) : Built fun cursor => cursor.readBytes n
  | bind {α β : Type} {read : Cursor → EngineResult (α × Cursor)}
      {rest : α × Cursor → EngineResult (β × Cursor)} (hread : Built read)
      (hrest : ∀ value, Built fun cursor => rest (value, cursor)) :
      Built fun cursor => read cursor >>= rest
  | bindValue {α β : Type} {value : EngineResult α} {rest : α → Cursor → EngineResult (β × Cursor)}
      (hvalue : value.NoFault) (hrest : ∀ a, Built (rest a)) :
      Built fun cursor => value >>= fun a => rest a cursor

namespace Built

theorem ite {c : Prop} [Decidable c] {α : Type} {read read' : Cursor → EngineResult (α × Cursor)}
    (h : Built read) (h' : Built read') :
    Built fun cursor => if c then read cursor else read' cursor := by
  by_cases hc : c
  · simpa only [if_pos hc] using h
  · simpa only [if_neg hc] using h'

theorem reads {α : Type} {read : Cursor → EngineResult (α × Cursor)} (h : Built read) :
    Reads read := by
  induction h with
  | ok value => exact .ok value
  | err e => exact .err e
  | readBytes hn => exact Cursor.reads_readBytes hn
  | bind _ _ hread hrest => exact hread.bind hrest
  | bindValue hvalue _ hrest => exact .bindValue hvalue hrest

end Built

namespace Cursor

theorem built_readU8 : Built readU8 := (Built.readBytes (by decide)).bind fun _ => .ok _

theorem built_readI8 : Built readI8 := built_readU8.bind fun _ => .ok _

theorem built_readBool : Built readBool := built_readU8.bind fun _ => .ok _

theorem built_readU16 : Built readU16 := (Built.readBytes (by decide)).bind fun _ => .ok _

theorem built_readI16 : Built readI16 := built_readU16.bind fun _ => .ok _

theorem built_readU32 : Built readU32 := (Built.readBytes (by decide)).bind fun _ => .ok _

theorem built_readI32 : Built readI32 := built_readU32.bind fun _ => .ok _

theorem built_readU64 : Built readU64 := (Built.readBytes (by decide)).bind fun _ => .ok _

theorem built_readI64 : Built readI64 := built_readU64.bind fun _ => .ok _

theorem built_readString : Built readString := by
  refine built_readU64.bind fun len => Built.ite (Built.err _) ?_
  refine (Built.readBytes len.toNat_lt).bind fun bytes => ?_
  exact Built.bindValue (Outcome.noFault_okOr _ _) fun text => Built.ok text

end Cursor

open Cursor

theorem built_readScalarOfType (ty : Int32) : Built fun cursor => readScalarOfType cursor ty := by
  unfold readScalarOfType
  split
  · exact built_readU8.bind fun _ => .ok _
  · exact built_readI8.bind fun _ => .ok _
  · exact built_readU16.bind fun _ => .ok _
  · exact built_readI16.bind fun _ => .ok _
  · exact built_readU32.bind fun _ => .ok _
  · exact built_readI32.bind fun _ => .ok _
  · exact built_readU32.bind fun _ => .ok _
  · exact built_readBool.bind fun _ => .ok _
  · exact built_readString.bind fun _ => .ok _
  · exact built_readU64.bind fun _ => .ok _
  · exact built_readI64.bind fun _ => .ok _
  · exact built_readU64.bind fun _ => .ok _
  · exact Built.err _

theorem built_readElements (ty : Int32) : ∀ n, Built (readElements ty n)
  | 0 => .ok _
  | n + 1 => (built_readScalarOfType ty).bind fun _ => (built_readElements ty n).bind fun _ => .ok _

theorem built_readValueOfType (ty : Int32) : Built fun cursor => readValueOfType cursor ty := by
  refine Built.ite ?_ (built_readScalarOfType ty)
  refine built_readI32.bind fun elementTy => Built.ite (Built.err _) ?_
  refine built_readU64.bind fun len => Built.ite (Built.err _) ?_
  exact (built_readElements elementTy len.toNat).bind fun _ => .ok _

theorem built_readValue : Built readValue := built_readI32.bind built_readValueOfType

theorem built_readMetadataEntries :
    ∀ n metadata, Built fun cursor => readMetadataEntries n cursor metadata
  | 0, metadata => .ok metadata
  | n + 1, metadata => by
    refine built_readString.bind fun key => built_readValue.bind fun value => ?_
    exact Built.ite (Built.err _) (built_readMetadataEntries n _)

theorem built_readDimensions (name : Str) : ∀ n, Built (readDimensions name n)
  | 0 => .ok _
  | n + 1 => by
    refine built_readI64.bind fun dim => Built.ite (Built.err _) ?_
    exact (built_readDimensions name n).bind fun _ => .ok _

theorem built_readRawTensor : Built readRawTensor := by
  refine built_readString.bind fun name => Built.ite (Built.err _) ?_
  refine built_readU32.bind fun nDimensions => Built.ite (Built.err _) ?_
  refine (built_readDimensions name nDimensions.toNat).bind fun dimensions => ?_
  exact built_readI32.bind fun _ => built_readU64.bind fun _ => .ok _

theorem built_readRawTensors : ∀ n, Built (readRawTensors n)
  | 0 => .ok _
  | n + 1 => built_readRawTensor.bind fun _ => (built_readRawTensors n).bind fun _ => .ok _

/-! ## What the readers return -/

theorem readMetadataEntries_keys {n : Nat} {cursor next : Cursor} {metadata result : Metadata}
    (h : readMetadataEntries n cursor metadata = .ok (result, next)) :
    result.keys.length = metadata.keys.length + n := by
  induction n generalizing cursor metadata with
  | zero =>
    obtain ⟨rfl, -⟩ := Prod.mk.inj (Outcome.ok.inj h)
    rfl
  | succ n ih =>
    rw [readMetadataEntries] at h
    obtain ⟨⟨key, cursor₁⟩, -, h⟩ := Outcome.bind_eq_ok.mp h
    obtain ⟨⟨value, cursor₂⟩, -, h⟩ := Outcome.bind_eq_ok.mp h
    dsimp only at h
    split at h
    · cases h
    · -- the key is new, so inserting it erases nothing
      rename_i hnew
      rw [ih h, AList.keys, AList.entries_insert_of_notMem hnew, List.keys_cons, List.length_cons]
      show metadata.keys.length + 1 + n = metadata.keys.length + (n + 1)
      omega

theorem readRawTensors_length {n : Nat} {cursor next : Cursor} {tensors : List RawTensor}
    (h : readRawTensors n cursor = .ok (tensors, next)) : tensors.length = n := by
  induction n generalizing cursor tensors with
  | zero =>
    obtain ⟨rfl, -⟩ := Prod.mk.inj (Outcome.ok.inj h)
    rfl
  | succ n ih =>
    rw [readRawTensors] at h
    obtain ⟨⟨tensor, cursor₁⟩, -, h⟩ := Outcome.bind_eq_ok.mp h
    obtain ⟨⟨rest, cursor₂⟩, hrest, h⟩ := Outcome.bind_eq_ok.mp h
    obtain ⟨rfl, rfl⟩ := Prod.mk.inj (Outcome.ok.inj h)
    rw [List.length_cons, ih hrest]

theorem readAlignment_noFault (metadata : Metadata) : (readAlignment metadata).NoFault := by
  refine Outcome.NoFault.bind ?_ fun alignment _ => ?_
  · unfold declaredAlignment
    split
    · exact Outcome.noFault_ok _
    · exact Outcome.noFault_ok _
    · exact Outcome.noFault_err _
    · exact Outcome.noFault_ok _
  · split
    · exact Outcome.noFault_err _
    · exact Outcome.noFault_ok _

/-- An accepted alignment is a power of two, however it was declared. -/
theorem readAlignment_eq_ok {metadata : Metadata} {alignment : UInt64}
    (h : readAlignment metadata = .ok alignment) : isPowerOfTwo alignment = true := by
  obtain ⟨declared, -, h⟩ := Outcome.bind_eq_ok.mp h
  split at h
  · cases h
  · rename_i hpow
    obtain rfl := Outcome.ok.inj h
    simp only [Bool.or_eq_true, not_or, Bool.not_eq_true', Bool.not_eq_false] at hpow
    exact hpow.2

/-! ## Arithmetic -/

/-- The number of elements a tensor's dimensions declare. -/
def elements (dimensions : List UInt64) : Nat := (dimensions.map UInt64.toNat).prod

theorem elementCount_eq_ok {name : Str} {dimensions : List UInt64} {start count : UInt64}
    (h : elementCount name dimensions start = .ok count) :
    count.toNat = start.toNat * elements dimensions := by
  induction dimensions generalizing start with
  | nil =>
    obtain rfl := Outcome.ok.inj h
    simp [elements]
  | cons dim dims ih =>
    obtain ⟨product, hproduct, hrest⟩ := Outcome.bind_eq_ok.mp h
    have hmul := checkedMul_eq_some.mp (Outcome.okOr_eq_ok.mp hproduct)
    calc count.toNat = product.toNat * elements dims := ih hrest
      _ = start.toNat * dim.toNat * elements dims := by rw [hmul]
      _ = start.toNat * elements (dim :: dims) := by
        rw [Nat.mul_assoc, elements, elements, List.map_cons, List.prod_cons]

theorem elementCount_noFault (name : Str) (dimensions : List UInt64) (start : UInt64) :
    (elementCount name dimensions start).NoFault := by
  induction dimensions generalizing start with
  | nil => exact Outcome.noFault_ok _
  | cons dim dims ih => exact (Outcome.noFault_okOr _ _).bind fun product _ => ih product

/-- `n` is the size of a tensor: its elements come in whole blocks of its wire
type, and `n` is that many blocks. -/
def Sized (dimensions : List UInt64) (tensorType : TensorType) (n : UInt64) : Prop :=
  ∃ block size, tensorType.layout = some (block, size) ∧
    block.toNat ∣ elements dimensions ∧ n.toNat = elements dimensions / block.toNat * size.toNat

theorem tensorNbytes_eq_ok {name : Str} {dimensions : List UInt64} {tensorType : TensorType}
    {n : UInt64} (h : tensorNbytes name dimensions tensorType = .ok n) :
    Sized dimensions tensorType n := by
  obtain ⟨⟨block, size⟩, hlayout, h⟩ := Outcome.bind_eq_ok.mp h
  dsimp only at h
  split at h
  · cases h
  rename_i hfirst
  obtain ⟨count, hcount, hbytes⟩ := Outcome.bind_eq_ok.mp h
  have hcount : count.toNat = elements dimensions := by
    rw [elementCount_eq_ok hcount, UInt64.toNat_one, Nat.one_mul]
  obtain ⟨blocks, hblocks, hmul⟩ := Option.bind_eq_some_iff.mp (Outcome.okOr_eq_ok.mp hbytes)
  have hdiv := (checkedDiv_eq_some.mp hblocks).2
  refine ⟨block, size, Outcome.okOr_eq_ok.mp hlayout, ?_, ?_⟩
  · -- the first dimension alone is a multiple of the block
    have hmod : (dimensions.head?.getD 1).toNat % block.toNat = 0 := by
      rw [← UInt64.toNat_mod, not_not.mp hfirst, UInt64.toNat_zero]
    cases dimensions with
    | nil => exact Nat.dvd_of_mod_eq_zero hmod
    | cons dim dims =>
      show block.toNat ∣ elements (dim :: dims)
      rw [elements, List.map_cons, List.prod_cons]
      exact Dvd.dvd.mul_right (Nat.dvd_of_mod_eq_zero hmod) _
  · rw [checkedMul_eq_some.mp hmul, hdiv, hcount]

theorem tensorNbytes_noFault (name : Str) (dimensions : List UInt64) (tensorType : TensorType) :
    (tensorNbytes name dimensions tensorType).NoFault := by
  refine (Outcome.noFault_okOr _ _).bind fun layout _ => ?_
  dsimp only
  split
  · exact Outcome.noFault_err _
  · exact (elementCount_noFault _ _ _).bind fun _ _ => Outcome.noFault_okOr _ _

/-- `align_to` rounds up exactly, or refuses. -/
theorem alignTo_eq_ok {value alignment result : UInt64} (hpow : isPowerOfTwo alignment = true)
    (h : alignTo value alignment = .ok result) :
    result.toNat = alignUp value.toNat alignment.toNat := by
  obtain ⟨k, hk⟩ := exists_pow_of_isPowerOfTwo hpow
  obtain ⟨add, hadd, hrest⟩ := Outcome.bind_eq_ok.mp h
  obtain ⟨hle, rfl⟩ := plainSub_eq_ok.mp hadd
  obtain ⟨sum, hsum, rfl⟩ := Option.map_eq_some_iff.mp (Outcome.okOr_eq_ok.mp hrest)
  have hmask : (alignment - 1).toNat = 2 ^ k - 1 := by
    rw [UInt64.toNat_sub_of_le _ _ (UInt64.le_iff_toNat_le.mpr hle), hk, UInt64.toNat_one]
  rw [toNat_and_not_mask hmask, checkedAdd_eq_some.mp hsum, hmask, alignUp, hk]

/-- The subtraction in `align_to` is the parser's one plain operator, and its
operand is never zero. -/
theorem alignTo_noFault {alignment : UInt64} (hpow : isPowerOfTwo alignment = true)
    (value : UInt64) : (alignTo value alignment).NoFault := by
  obtain ⟨k, hk⟩ := exists_pow_of_isPowerOfTwo hpow
  have hle : (1 : UInt64).toNat ≤ alignment.toNat := by
    rw [hk, UInt64.toNat_one]
    exact Nat.one_le_two_pow
  have hsub : (plainSub alignment 1 : EngineResult UInt64) = .ok (alignment - 1) :=
    plainSub_eq_ok.mpr ⟨hle, rfl⟩
  unfold alignTo
  rw [hsub, Outcome.ok_bind]
  exact Outcome.noFault_okOr _ _

/-! ## Placement -/

namespace TensorDescriptor

/-- The bytes of the file a tensor's data occupies. -/
def span (tensor : TensorDescriptor) : Span :=
  ⟨tensor.absoluteOffset.toNat, tensor.nBytes.toNat⟩

/-- The placement loop's checks on one tensor. -/
structure Placed (dataStartOffset declaredLen : UInt64) (tensor : TensorDescriptor) : Prop where
  offset : tensor.absoluteOffset.toNat = dataStartOffset.toNat + tensor.relativeOffset.toNat
  inFile : tensor.span.finish ≤ declaredLen.toNat
  sized : Sized tensor.dimensions tensor.tensorType tensor.nBytes

end TensorDescriptor

/-- What one pass of the placement loop commits to before it goes on: the tensor
it places, and the offset it expects next. -/
theorem placeTensors_cons {alignment dataStartOffset declaredLen expectedOffset : UInt64}
    {raw : RawTensor} {raws : List RawTensor} {seenNames : List Str}
    {tensors : List TensorDescriptor} (hpow : isPowerOfTwo alignment = true)
    (h : placeTensors alignment dataStartOffset declaredLen (raw :: raws) seenNames
      expectedOffset = .ok tensors) :
    ∃ tensor rest next, tensors = tensor :: rest ∧
      placeTensors alignment dataStartOffset declaredLen raws (raw.name :: seenNames) next =
        .ok rest ∧
      tensor.name = raw.name ∧ raw.name ∉ seenNames ∧
      tensor.relativeOffset = expectedOffset ∧
      tensor.Placed dataStartOffset declaredLen ∧
      next.toNat = alignUp (expectedOffset.toNat + tensor.nBytes.toNat) alignment.toNat := by
  rw [placeTensors] at h
  split at h
  · cases h
  rename_i hnew
  split at h
  · cases h
  rename_i hoffset
  obtain ⟨nBytes, hbytes, h⟩ := Outcome.bind_eq_ok.mp h
  obtain ⟨absoluteOffset, habsolute, h⟩ := Outcome.bind_eq_ok.mp h
  obtain ⟨finish, hfinish, h⟩ := Outcome.bind_eq_ok.mp h
  split at h
  · cases h
  rename_i hinFile
  obtain ⟨span, hspan, h⟩ := Outcome.bind_eq_ok.mp h
  obtain ⟨next, hnext, h⟩ := Outcome.bind_eq_ok.mp h
  obtain ⟨rest, hrest, h⟩ := Outcome.bind_eq_ok.mp h
  have habsolute := checkedAdd_eq_some.mp (Outcome.okOr_eq_ok.mp habsolute)
  have hfinish := checkedAdd_eq_some.mp (Outcome.okOr_eq_ok.mp hfinish)
  have hspan := checkedAdd_eq_some.mp (Outcome.okOr_eq_ok.mp hspan)
  have hoffset : raw.relativeOffset = expectedOffset := not_not.mp hoffset
  refine ⟨_, rest, next, (Outcome.ok.inj h).symm, hrest, rfl, hnew, hoffset,
    ⟨habsolute, ?_, tensorNbytes_eq_ok hbytes⟩, ?_⟩
  · show absoluteOffset.toNat + nBytes.toNat ≤ declaredLen.toNat
    rw [← hfinish]
    exact UInt64.le_iff_toNat_le.mp (UInt64.not_lt.mp hinFile)
  · rw [alignTo_eq_ok hpow hnext, hspan, hoffset]

/-- **Key lemma.** The placement loop tiles the data region from the expected
offset on, whatever it started from. -/
theorem placeTensors_eq_ok {alignment dataStartOffset declaredLen expectedOffset : UInt64}
    {raws : List RawTensor} {seenNames : List Str} {tensors : List TensorDescriptor}
    (hpow : isPowerOfTwo alignment = true)
    (hstart : alignment.toNat ∣ dataStartOffset.toNat)
    (h : placeTensors alignment dataStartOffset declaredLen raws seenNames expectedOffset =
      .ok tensors) :
    tensors.map (·.name) = raws.map (·.name) ∧ (tensors.map (·.name)).Nodup ∧
    (∀ tensor ∈ tensors, tensor.name ∉ seenNames) ∧
    (∀ tensor ∈ tensors, tensor.Placed dataStartOffset declaredLen) ∧
    Tiled alignment.toNat (dataStartOffset.toNat + expectedOffset.toNat)
      (tensors.map (·.span)) := by
  induction raws generalizing seenNames expectedOffset tensors with
  | nil =>
    obtain rfl := Outcome.ok.inj h
    exact ⟨rfl, List.nodup_nil, by simp, by simp, trivial⟩
  | cons raw raws ih =>
    obtain ⟨tensor, rest, next, rfl, hrest, hname, hnew, hoffset, hplaced, hnext⟩ :=
      placeTensors_cons hpow h
    obtain ⟨hnames, hnodup, hfresh, hall, htiled⟩ := ih hrest
    refine ⟨?_, ?_, ?_, ?_, ?_, ?_⟩
    · rw [List.map_cons, List.map_cons, hnames, hname]
    · -- the later names were checked against this one
      rw [List.map_cons, List.nodup_cons]
      refine ⟨?_, hnodup⟩
      intro hmem
      obtain ⟨later, hlater, heq⟩ := List.mem_map.mp hmem
      exact hfresh later hlater (by rw [heq, hname]; exact List.mem_cons_self)
    · intro later hlater
      rcases List.mem_cons.mp hlater with rfl | hlater
      · rw [hname]
        exact hnew
      · exact fun hmem => hfresh later hlater (List.mem_cons_of_mem _ hmem)
    · intro later hlater
      rcases List.mem_cons.mp hlater with rfl | hlater
      · exact hplaced
      · exact hall later hlater
    · show tensor.absoluteOffset.toNat = _
      rw [hplaced.offset, hoffset]
    · -- rounding up relative to an aligned data start is rounding up absolutely
      show Tiled _ (alignUp (tensor.absoluteOffset.toNat + tensor.nBytes.toNat) _) _
      rw [hplaced.offset, hoffset, Nat.add_assoc, alignUp_add_of_dvd _ hstart, ← hnext]
      exact htiled

theorem placeTensors_noFault {alignment : UInt64} (hpow : isPowerOfTwo alignment = true)
    (dataStartOffset declaredLen : UInt64) (raws : List RawTensor) (seenNames : List Str)
    (expectedOffset : UInt64) :
    (placeTensors alignment dataStartOffset declaredLen raws seenNames expectedOffset).NoFault := by
  induction raws generalizing seenNames expectedOffset with
  | nil => exact Outcome.noFault_ok _
  | cons raw raws ih =>
    rw [placeTensors]
    split
    · exact Outcome.noFault_err _
    split
    · exact Outcome.noFault_err _
    refine (tensorNbytes_noFault _ _ _).bind fun nBytes _ => ?_
    refine (Outcome.noFault_okOr _ _).bind fun absoluteOffset _ => ?_
    refine (Outcome.noFault_okOr _ _).bind fun finish _ => ?_
    split
    · exact Outcome.noFault_err _
    refine (Outcome.noFault_okOr _ _).bind fun span _ => ?_
    refine (alignTo_noFault hpow _).bind fun next _ => ?_
    exact (ih _ _).bind fun _ _ => Outcome.noFault_ok _

/-! ## The whole header -/

/-- What a header that was accepted for a file of `declaredLen` bytes guarantees.
`headerLen` is how many bytes the parse consumed. -/
structure GgufFile.WellLaidOut (file : GgufFile) (headerLen declaredLen : Nat) : Prop where
  alignmentPow : ∃ k, file.alignment.toNat = 2 ^ k
  dataStart : file.dataStartOffset.toNat = alignUp headerLen file.alignment.toNat
  dataStartInFile : file.dataStartOffset.toNat ≤ declaredLen
  tensorsRead : file.tensors.length = file.tensorCount.toInt
  metadataRead : file.metadata.keys.length = file.metadataCount.toInt
  keysUnique : file.metadata.keys.Nodup
  namesUnique : (file.tensors.map (·.name)).Nodup
  first : ∀ tensor ∈ file.tensors.head?, tensor.absoluteOffset = file.dataStartOffset
  contiguous : file.tensors.IsChain fun before tensor =>
    tensor.absoluteOffset.toNat = alignUp before.span.finish file.alignment.toNat
  disjoint : file.tensors.Pairwise fun before tensor =>
    before.span.finish ≤ tensor.absoluteOffset.toNat
  offset : ∀ tensor ∈ file.tensors,
    tensor.absoluteOffset.toNat = file.dataStartOffset.toNat + tensor.relativeOffset.toNat
  aligned : ∀ tensor ∈ file.tensors, file.alignment.toNat ∣ tensor.absoluteOffset.toNat
  inFile : ∀ tensor ∈ file.tensors, tensor.span.finish ≤ declaredLen
  sized : ∀ tensor ∈ file.tensors, Sized tensor.dimensions tensor.tensorType tensor.nBytes

/-- The steps of a parse that returned, and where its cursor stood at the end. -/
theorem readMetadataWithLen_steps {bytes : List UInt8} {declaredLen : UInt64} {file : GgufFile}
    (h : readMetadataWithLen bytes declaredLen = .ok file) :
    ∃ header entries descriptors rawTensors,
      0 ≤ file.tensorCount.toInt ∧ 0 ≤ file.metadataCount.toInt ∧
      readMetadataEntries file.metadataCount.toInt.toNat header ∅ = .ok (file.metadata, entries) ∧
      readAlignment file.metadata = .ok file.alignment ∧
      readRawTensors file.tensorCount.toInt.toNat entries = .ok (rawTensors, descriptors) ∧
      descriptors.Over bytes ∧
      alignTo descriptors.pos file.alignment = .ok file.dataStartOffset ∧
      file.dataStartOffset ≤ declaredLen ∧
      placeTensors file.alignment file.dataStartOffset declaredLen rawTensors [] 0 =
        .ok file.tensors := by
  -- `hover` goes along with the cursor: it stands behind a front part of `bytes`
  have hover : Cursor.Over bytes ⟨bytes, 0⟩ := ⟨[], rfl, rfl⟩
  obtain ⟨⟨magic, cursor₀⟩, hmagic, h⟩ := Outcome.bind_eq_ok.mp h
  replace hover := (Built.readBytes (by decide)).reads.standsOver hover hmagic
  dsimp only at h
  split at h
  · cases h
  obtain ⟨⟨version, cursor₁⟩, hversion, h⟩ := Outcome.bind_eq_ok.mp h
  replace hover := Cursor.built_readU32.reads.standsOver hover hversion
  dsimp only at h
  split at h
  · cases h
  obtain ⟨⟨tensorCount, cursor₂⟩, htensors, h⟩ := Outcome.bind_eq_ok.mp h
  replace hover := Cursor.built_readI64.reads.standsOver hover htensors
  obtain ⟨⟨metadataCount, header⟩, hmetadata, h⟩ := Outcome.bind_eq_ok.mp h
  replace hover := Cursor.built_readI64.reads.standsOver hover hmetadata
  dsimp only at h
  split at h
  · cases h
  rename_i hcounts
  obtain ⟨⟨metadata, entries⟩, hentries, h⟩ := Outcome.bind_eq_ok.mp h
  replace hover := (built_readMetadataEntries _ _).reads.standsOver hover hentries
  obtain ⟨alignment, halignment, h⟩ := Outcome.bind_eq_ok.mp h
  obtain ⟨⟨rawTensors, descriptors⟩, hraw, h⟩ := Outcome.bind_eq_ok.mp h
  replace hover := (built_readRawTensors _).reads.standsOver hover hraw
  obtain ⟨dataStartOffset, hstart, h⟩ := Outcome.bind_eq_ok.mp h
  dsimp only at h
  split at h
  · cases h
  rename_i hinFile
  obtain ⟨tensors, hplaced, h⟩ := Outcome.bind_eq_ok.mp h
  obtain rfl := Outcome.ok.inj h
  simp only [Bool.or_eq_true, decide_eq_true_eq, not_or, Int64.not_lt] at hcounts
  exact ⟨header, entries, descriptors, rawTensors, Int64.le_iff_toInt_le.mp hcounts.1,
    Int64.le_iff_toInt_le.mp hcounts.2, hentries, halignment, hraw, hover, hstart,
    UInt64.not_lt.mp hinFile, hplaced⟩

theorem readMetadataWithLen_noFault (bytes : List UInt8) (declaredLen : UInt64) :
    (readMetadataWithLen bytes declaredLen).NoFault := by
  unfold readMetadataWithLen
  refine ((Built.readBytes (by decide)).reads.noFault _).bind ?_
  rintro ⟨magic, cursor₀⟩ -
  dsimp only
  split
  · exact Outcome.noFault_err _
  refine (Cursor.built_readU32.reads.noFault _).bind ?_
  rintro ⟨version, cursor₁⟩ -
  dsimp only
  split
  · exact Outcome.noFault_err _
  refine (Cursor.built_readI64.reads.noFault _).bind ?_
  rintro ⟨tensorCount, cursor₂⟩ -
  refine (Cursor.built_readI64.reads.noFault _).bind ?_
  rintro ⟨metadataCount, header⟩ -
  dsimp only
  split
  · exact Outcome.noFault_err _
  refine ((built_readMetadataEntries _ _).reads.noFault _).bind ?_
  rintro ⟨metadata, entries⟩ -
  -- from here on the alignment is known to be a power of two
  refine (readAlignment_noFault metadata).bind fun alignment halignment => ?_
  have hpow := readAlignment_eq_ok halignment
  refine ((built_readRawTensors _).reads.noFault _).bind ?_
  rintro ⟨rawTensors, descriptors⟩ -
  refine (alignTo_noFault hpow _).bind fun dataStartOffset _ => ?_
  dsimp only
  split
  · exact Outcome.noFault_err _
  · exact (placeTensors_noFault hpow _ _ _ _ _).bind fun _ _ => Outcome.noFault_ok _

/-- A header that is accepted is laid out as it says. -/
theorem wellLaidOut_of_ok {bytes : List UInt8} {declaredLen : UInt64} {file : GgufFile}
    (h : readMetadataWithLen bytes declaredLen = .ok file) :
    ∃ headerLen ≤ bytes.length, file.WellLaidOut headerLen declaredLen.toNat := by
  obtain ⟨header, entries, descriptors, rawTensors, htensors, hmetadata, hentries, halignment,
    hraw, ⟨taken, hbytes, hpos⟩, hstart, hinFile, hplaced⟩ := readMetadataWithLen_steps h
  have hpow := readAlignment_eq_ok halignment
  obtain ⟨k, hk⟩ := exists_pow_of_isPowerOfTwo hpow
  have hpos' : 0 < file.alignment.toNat := by
    rw [hk]
    exact Nat.two_pow_pos k
  have hstart' := alignTo_eq_ok hpow hstart
  have hdvd : file.alignment.toNat ∣ file.dataStartOffset.toNat := by
    rw [hstart']
    exact dvd_alignUp _ _
  obtain ⟨hnames, hnodup, -, hall, htiled⟩ := placeTensors_eq_ok hpow hdvd hplaced
  rw [UInt64.toNat_zero, Nat.add_zero] at htiled
  refine ⟨taken.length, ?_, ?_⟩
  · rw [hbytes, List.length_append]
    exact Nat.le_add_right _ _
  exact {
    alignmentPow := ⟨k, hk⟩
    dataStart := by rw [hstart', hpos]
    dataStartInFile := UInt64.le_iff_toNat_le.mp hinFile
    tensorsRead := by
      have hlen := congrArg List.length hnames
      rw [List.length_map, List.length_map, readRawTensors_length hraw] at hlen
      omega
    metadataRead := by
      rw [readMetadataEntries_keys hentries, AList.keys_empty, List.length_nil]
      omega
    keysUnique := AList.keys_nodup _
    namesUnique := hnodup
    first := by
      intro tensor htensor
      cases htensors : file.tensors with
      | nil => simp [htensors] at htensor
      | cons head rest =>
        rw [htensors] at htensor htiled
        obtain rfl := Option.some.inj htensor
        exact UInt64.toNat_inj.mp htiled.1
    contiguous := (List.isChain_map TensorDescriptor.span).mp htiled.isChain
    disjoint := List.pairwise_map.mp (htiled.pairwise hpos')
    offset := fun tensor htensor => (hall tensor htensor).offset
    aligned := fun tensor htensor =>
      htiled.dvd_start hdvd tensor.span (List.mem_map_of_mem htensor)
    inFile := fun tensor htensor => (hall tensor htensor).inFile
    sized := fun tensor htensor => (hall tensor htensor).sized }

/-- **Acceptance.** On every byte string and for every declared length the parser
returns, and a header it accepts is laid out as it says. -/
theorem readMetadataWithLen_wellLaidOut (bytes : List UInt8) (declaredLen : UInt64) :
    (readMetadataWithLen bytes declaredLen).NoFault ∧
    ∀ file, readMetadataWithLen bytes declaredLen = .ok file →
      ∃ headerLen ≤ bytes.length, file.WellLaidOut headerLen declaredLen.toNat :=
  ⟨readMetadataWithLen_noFault bytes declaredLen, fun _ => wellLaidOut_of_ok⟩

/-- A version 3 file: `general.alignment` is 8, tensor `a` holds three floats and
tensor `b` two half floats. -/
def twoTensorHeader : List UInt8 :=
  [71, 71, 85, 70, 3, 0, 0, 0, 2, 0, 0, 0, 0, 0, 0, 0, 1, 0, 0, 0, 0, 0, 0, 0, 17, 0, 0, 0, 0,
    0, 0, 0, 103, 101, 110, 101, 114, 97, 108, 46, 97, 108, 105, 103, 110, 109, 101, 110, 116,
    4, 0, 0, 0, 8, 0, 0, 0, 1, 0, 0, 0, 0, 0, 0, 0, 97, 1, 0, 0, 0, 3, 0, 0, 0, 0, 0, 0, 0, 0,
    0, 0, 0, 0, 0, 0, 0, 0, 0, 0, 0, 1, 0, 0, 0, 0, 0, 0, 0, 98, 1, 0, 0, 0, 2, 0, 0, 0, 0, 0,
    0, 0, 1, 0, 0, 0, 16, 0, 0, 0, 0, 0, 0, 0]

/-- The header above is accepted for a file of 148 bytes: `a` fills 128 to 140,
and `b` starts at the next multiple of 8. -/
theorem twoTensorHeader_wellLaidOut :
    ∃ file, readMetadataWithLen twoTensorHeader 148 = .ok file ∧
      file.tensors.map (·.span) = [⟨128, 12⟩, ⟨144, 4⟩] ∧
      ∃ headerLen ≤ twoTensorHeader.length, file.WellLaidOut headerLen 148 := by
  have hspans : (match readMetadataWithLen twoTensorHeader 148 with
      | .ok file => file.tensors.map (·.span)
      | _ => []) = [⟨128, 12⟩, ⟨144, 4⟩] := by
    decide +kernel
  cases h : readMetadataWithLen twoTensorHeader 148 with
  | ok file =>
    rw [h] at hspans
    exact ⟨file, rfl, hspans, (readMetadataWithLen_wellLaidOut twoTensorHeader 148).2 file h⟩
  | err e =>
    rw [h] at hspans
    cases hspans
  | fault k =>
    rw [h] at hspans
    cases hspans

end CamelidEnterprise.Gguf

import CamelidEnterprise.Engine.GgufLayout

/-!
# Camelid Enterprise — the GGUF wire grammar

What a writer of the format puts on the wire, against `readMetadataWithLen`.

* `Entry`, `TensorDescriptor.bytes`, `Document` — metadata entries and tensor
  descriptors with their serialization, and when they are well formed;
* `Takes` — a reader takes some bytes for a value, whatever follows them;
* `Starves` — on less than those bytes it reports the end of the file;
* `Streams` — a reader that returned takes what it took, and starves on less, as
  every `Built` one does.

`Document.parse_bytes` composes what the readers take; `prefix_of_ok` follows from
what they leave, since the parser computes nothing before it has read the whole
header. `parse_exact` is both.
-/

namespace CamelidEnterprise.Gguf

open Foundation Foundation.Word

-- ---------------------------------------------------------------------------
-- Words on the wire
-- ---------------------------------------------------------------------------

/-- `to_le_bytes`, of a word of `width` bytes. -/
def toLeBytes : Nat → Nat → List UInt8
  | 0, _ => []
  | width + 1, value => UInt8.ofNat value :: toLeBytes width (value / 256)

@[simp] theorem length_toLeBytes (width value : Nat) : (toLeBytes width value).length = width := by
  induction width generalizing value with
  | zero => rfl
  | succ width ih => rw [toLeBytes, List.length_cons, ih]

theorem fromLeBytes_toLeBytes {width value : Nat} (h : value < 256 ^ width) :
    Cursor.fromLeBytes (toLeBytes width value) = value := by
  induction width generalizing value with
  | zero =>
    rw [Nat.pow_zero] at h
    show 0 = value
    omega
  | succ width ih =>
    have hhigh : value / 256 < 256 ^ width := by
      rw [Nat.pow_succ] at h
      exact Nat.div_lt_of_lt_mul (by rwa [Nat.mul_comm])
    show (UInt8.ofNat value).toNat + 256 * Cursor.fromLeBytes (toLeBytes width (value / 256)) = value
    rw [ih hhigh, UInt8.toNat_ofNat']
    omega

-- ---------------------------------------------------------------------------
-- What a reader takes
-- ---------------------------------------------------------------------------

/-- A reader takes `bytes` for `value`, whatever follows them. -/
def Takes {α : Type} (read : Cursor → EngineResult (α × Cursor)) (bytes : List UInt8)
    (value : α) : Prop :=
  ∀ tail pos, pos.toNat + bytes.length < 2 ^ 64 →
    read ⟨bytes ++ tail, pos⟩ = .ok (value, ⟨tail, pos + .ofNat bytes.length⟩)

/-- On less than `bytes`, a reader reports the end of the file. -/
def Starves {α : Type} (read : Cursor → EngineResult (α × Cursor)) (bytes : List UInt8) : Prop :=
  ∀ short pos, short <+: bytes → short ≠ bytes → pos.toNat + bytes.length < 2 ^ 64 →
    ∃ message, read ⟨short, pos⟩ = .err (.InvalidGguf message)

theorem toNat_advance {pos : UInt64} {n : Nat} (h : pos.toNat + n < 2 ^ 64) :
    (pos + .ofNat n).toNat = pos.toNat + n := by
  have hn : n < UInt64.size := Nat.lt_of_le_of_lt (Nat.le_add_left _ _) h
  rw [UInt64.toNat_add, UInt64.toNat_ofNat_of_lt' hn, Nat.mod_eq_of_lt h]

namespace Takes

variable {α β : Type}

theorem ok (value : α) : Takes (fun cursor => .ok (value, cursor)) [] value := by
  intro tail pos _
  have hpos : pos + UInt64.ofNat 0 = pos := UInt64.add_zero pos
  rw [List.nil_append, List.length_nil, hpos]

/-- Two readers in a row take what the first takes, then what the second takes. -/
theorem bind {read : Cursor → EngineResult (α × Cursor)}
    {rest : α × Cursor → EngineResult (β × Cursor)} {bytes more : List UInt8} {value : α}
    {result : β} (hread : Takes read bytes value)
    (hrest : Takes (fun cursor => rest (value, cursor)) more result) :
    Takes (fun cursor => read cursor >>= rest) (bytes ++ more) result := by
  intro tail pos hpos
  rw [List.length_append] at hpos
  have hmid : (pos + .ofNat bytes.length).toNat = pos.toNat + bytes.length :=
    toNat_advance (by omega)
  show (read ⟨bytes ++ more ++ tail, pos⟩ >>= rest) = _
  rw [List.append_assoc, hread (more ++ tail) pos (by omega), Outcome.ok_bind]
  refine (hrest tail _ (by rw [hmid]; omega)).trans ?_
  rw [List.length_append]
  have hadd : pos + UInt64.ofNat bytes.length + UInt64.ofNat more.length =
      pos + UInt64.ofNat (bytes.length + more.length) := by
    apply UInt64.toNat_inj.mp
    rw [toNat_advance (by rw [hmid]; omega), hmid, toNat_advance (by omega), Nat.add_assoc]
  rw [hadd]

/-- What is read is worked on without touching the cursor. -/
theorem bindValue {read : Cursor → EngineResult (α × Cursor)} {f : α → EngineResult β}
    {bytes : List UInt8} {value : α} {result : β} (hread : Takes read bytes value)
    (hf : f value = .ok result) :
    Takes (fun cursor => read cursor >>= fun (a, cursor) => f a >>= fun b => .ok (b, cursor))
      bytes result := by
  intro tail pos hpos
  show (read ⟨bytes ++ tail, pos⟩ >>= _) = _
  rw [hread tail pos hpos, Outcome.ok_bind]
  dsimp only
  rw [hf, Outcome.ok_bind]

theorem map {read : Cursor → EngineResult (α × Cursor)} {bytes : List UInt8} {value : α}
    (hread : Takes read bytes value) (f : α → β) :
    Takes (fun cursor => read cursor >>= fun (a, cursor) => .ok (f a, cursor)) bytes (f value) :=
  hread.bindValue (f := fun a => .ok (f a)) rfl

theorem of_eq {read read' : Cursor → EngineResult (α × Cursor)} {bytes : List UInt8} {value : α}
    (hread : Takes read bytes value) (h : ∀ cursor, read' cursor = read cursor) :
    Takes read' bytes value := by
  intro tail pos hpos
  rw [h]
  exact hread tail pos hpos

/-- A reader that passes a check goes on to the rest. -/
theorem ite_neg {c : Prop} [Decidable c] {read read' : Cursor → EngineResult (α × Cursor)}
    {bytes : List UInt8} {value : α} (hc : ¬c) (hread : Takes read' bytes value) :
    Takes (fun cursor => if c then read cursor else read' cursor) bytes value :=
  hread.of_eq fun _ => if_neg hc

end Takes

namespace Cursor

theorem takes_readBytes {bytes : List UInt8} {n : Nat} (hn : bytes.length = n) :
    Takes (fun cursor => cursor.readBytes n) bytes bytes := by
  subst hn
  intro tail pos hpos
  have hle : bytes.length ≤ (bytes ++ tail).length := by
    rw [List.length_append]
    exact Nat.le_add_right _ _
  have hadd : checkedAdd pos (.ofNat bytes.length) = some (pos + .ofNat bytes.length) := by
    have hn : bytes.length < UInt64.size := Nat.lt_of_le_of_lt (Nat.le_add_left _ _) hpos
    rw [checkedAdd_eq_some, toNat_advance hpos, UInt64.toNat_ofNat_of_lt' hn]
  show readBytes ⟨bytes ++ tail, pos⟩ bytes.length = _
  rw [readBytes, if_pos hle]
  dsimp only
  rw [hadd, Outcome.okOr_some, Outcome.ok_bind, List.take_left, List.drop_left]

/-- An unsigned word of any width, read the way all four widths are. -/
theorem takes_word {α : Type} (width : Nat) {value : Nat} (ofNat : Nat → α)
    (h : value < 256 ^ width) :
    Takes (fun cursor => cursor.readBytes width >>= fun (b, cursor) =>
      .ok (ofNat (fromLeBytes b), cursor)) (toLeBytes width value) (ofNat value) := by
  have hread := (takes_readBytes (length_toLeBytes width value)).map fun b => ofNat (fromLeBytes b)
  rwa [fromLeBytes_toLeBytes h] at hread

theorem takes_readU8 (value : UInt8) : Takes readU8 (toLeBytes 1 value.toNat) value := by
  have h := takes_word 1 UInt8.ofNat value.toNat_lt
  rwa [UInt8.ofNat_toNat] at h

theorem takes_readU16 (value : UInt16) : Takes readU16 (toLeBytes 2 value.toNat) value := by
  have h := takes_word 2 UInt16.ofNat value.toNat_lt
  rwa [UInt16.ofNat_toNat] at h

theorem takes_readU32 (value : UInt32) : Takes readU32 (toLeBytes 4 value.toNat) value := by
  have h := takes_word 4 UInt32.ofNat value.toNat_lt
  rwa [UInt32.ofNat_toNat] at h

theorem takes_readU64 (value : UInt64) : Takes readU64 (toLeBytes 8 value.toNat) value := by
  have h := takes_word 8 UInt64.ofNat value.toNat_lt
  rwa [UInt64.ofNat_toNat] at h

theorem takes_readI8 (value : Int8) : Takes readI8 (toLeBytes 1 value.toUInt8.toNat) value :=
  (takes_readU8 value.toUInt8).map UInt8.toInt8

theorem takes_readI16 (value : Int16) : Takes readI16 (toLeBytes 2 value.toUInt16.toNat) value :=
  (takes_readU16 value.toUInt16).map UInt16.toInt16

theorem takes_readI32 (value : Int32) : Takes readI32 (toLeBytes 4 value.toUInt32.toNat) value :=
  (takes_readU32 value.toUInt32).map UInt32.toInt32

theorem takes_readI64 (value : Int64) : Takes readI64 (toLeBytes 8 value.toUInt64.toNat) value :=
  (takes_readU64 value.toUInt64).map UInt64.toInt64

theorem takes_readBool (value : Bool) : Takes readBool (toLeBytes 1 value.toNat) value := by
  have h := (takes_readU8 (.ofNat value.toNat)).map (· != 0)
  cases value
  · exact h
  · exact h

end Cursor

/-- A string on the wire: its length in bytes, then its UTF-8. -/
def stringBytes (text : Str) : List UInt8 :=
  toLeBytes 8 (Utf8.encode text).length ++ Utf8.encode text

theorem Cursor.takes_readString {text : Str}
    (h : (Utf8.encode text).length ≤ maxStringBytes.toNat) :
    Takes readString (stringBytes text) text := by
  have hlt : (Utf8.encode text).length < 2 ^ 64 := Nat.lt_of_le_of_lt h maxStringBytes.toNat_lt
  have hlen := takes_readU64 (.ofNat (Utf8.encode text).length)
  rw [UInt64.toNat_ofNat_of_lt' hlt] at hlen
  refine hlen.bind (Takes.ite_neg ?_ ?_)
  · rw [gt_iff_lt, UInt64.not_lt, UInt64.le_iff_toNat_le, UInt64.toNat_ofNat_of_lt' hlt]
    exact h
  · refine (takes_readBytes (UInt64.toNat_ofNat_of_lt' hlt).symm).bindValue
      (f := fun bytes => Outcome.okOr (.InvalidGguf "invalid UTF-8 string") (Utf8.fromUtf8 bytes)) ?_
    rw [Utf8.fromUtf8_encode, Outcome.okOr_some]

-- ---------------------------------------------------------------------------
-- Metadata entries
-- ---------------------------------------------------------------------------

/-- The id a value's type has on the wire. -/
def MetadataValue.typeId : MetadataValue → Int32
  | .U8 _ => 0
  | .I8 _ => 1
  | .U16 _ => 2
  | .I16 _ => 3
  | .U32 _ => 4
  | .I32 _ => 5
  | .F32 _ => 6
  | .Bool _ => 7
  | .String _ => 8
  | .Array _ => 9
  | .U64 _ => 10
  | .I64 _ => 11
  | .F64 _ => 12

/-- A value on the wire, for every type but an array. -/
def MetadataValue.scalarBytes : MetadataValue → List UInt8
  | .U8 value => toLeBytes 1 value.toNat
  | .I8 value => toLeBytes 1 value.toUInt8.toNat
  | .U16 value => toLeBytes 2 value.toNat
  | .I16 value => toLeBytes 2 value.toUInt16.toNat
  | .U32 value => toLeBytes 4 value.toNat
  | .I32 value => toLeBytes 4 value.toUInt32.toNat
  | .F32 bits => toLeBytes 4 bits.toNat
  | .Bool value => toLeBytes 1 value.toNat
  | .String value => stringBytes value
  | .Array _ => []
  | .U64 value => toLeBytes 8 value.toNat
  | .I64 value => toLeBytes 8 value.toUInt64.toNat
  | .F64 bits => toLeBytes 8 bits.toNat

/-- A value that is no array, and no longer than a string may be. -/
def MetadataValue.Scalar : MetadataValue → Prop
  | .String value => (Utf8.encode value).length ≤ maxStringBytes.toNat
  | .Array _ => False
  | _ => True

/-- One metadata entry as a writer has it. `elementTy` is the type an array's
elements are written with; an empty array has no element to take it from. -/
structure Entry where
  key : Str
  value : MetadataValue
  elementTy : Int32

namespace Entry

/-- A value with the type in front of it. -/
def valueBytes (elementTy : Int32) : MetadataValue → List UInt8
  | .Array values =>
    toLeBytes 4 elementTy.toUInt32.toNat ++
      (toLeBytes 8 values.length ++ values.flatMap MetadataValue.scalarBytes)
  | value => value.scalarBytes

def bytes (entry : Entry) : List UInt8 :=
  stringBytes entry.key ++
    (toLeBytes 4 entry.value.typeId.toUInt32.toNat ++ valueBytes entry.elementTy entry.value)

/-- The value keeps the limits of the format: an array is no longer than one may
be, and holds scalars of its element type. -/
def ValueFits (elementTy : Int32) : MetadataValue → Prop
  | .Array values =>
    elementTy.toInt ≠ 9 ∧ values.length ≤ maxArrayLen.toNat ∧
      ∀ value ∈ values, value.Scalar ∧ value.typeId = elementTy
  | value => value.Scalar

structure WellFormed (entry : Entry) : Prop where
  key : (Utf8.encode entry.key).length ≤ maxStringBytes.toNat
  value : ValueFits entry.elementTy entry.value

/-- The entry as the parsed map holds it. -/
def binding (entry : Entry) : Sigma fun _ : Str => MetadataValue := ⟨entry.key, entry.value⟩

end Entry

theorem takes_readScalarOfType {value : MetadataValue} (h : value.Scalar) :
    Takes (fun cursor => readScalarOfType cursor value.typeId) value.scalarBytes value := by
  cases value with
  | U8 value => exact (Cursor.takes_readU8 value).map MetadataValue.U8
  | I8 value => exact (Cursor.takes_readI8 value).map MetadataValue.I8
  | U16 value => exact (Cursor.takes_readU16 value).map MetadataValue.U16
  | I16 value => exact (Cursor.takes_readI16 value).map MetadataValue.I16
  | U32 value => exact (Cursor.takes_readU32 value).map MetadataValue.U32
  | I32 value => exact (Cursor.takes_readI32 value).map MetadataValue.I32
  | F32 bits => exact (Cursor.takes_readU32 bits).map MetadataValue.F32
  | Bool value => exact (Cursor.takes_readBool value).map MetadataValue.Bool
  | String value => exact (Cursor.takes_readString h).map MetadataValue.String
  | Array values => exact absurd h id
  | U64 value => exact (Cursor.takes_readU64 value).map MetadataValue.U64
  | I64 value => exact (Cursor.takes_readI64 value).map MetadataValue.I64
  | F64 bits => exact (Cursor.takes_readU64 bits).map MetadataValue.F64

theorem takes_readElements {elementTy : Int32} {values : List MetadataValue}
    (h : ∀ value ∈ values, value.Scalar ∧ value.typeId = elementTy) :
    Takes (readElements elementTy values.length) (values.flatMap MetadataValue.scalarBytes)
      values := by
  induction values with
  | nil => exact Takes.ok []
  | cons value values ih =>
    obtain ⟨hvalue, rfl⟩ := h value List.mem_cons_self
    rw [List.flatMap_cons]
    refine (takes_readScalarOfType hvalue).bind ?_
    exact (ih fun value hmem => h value (List.mem_cons_of_mem _ hmem)).map (value :: ·)

/-- A scalar is not written under the type id of arrays. -/
theorem MetadataValue.Scalar.typeId_ne {value : MetadataValue} (h : value.Scalar) :
    value.typeId.toInt ≠ 9 := by
  cases value with
  | Array values => exact absurd h id
  | _ => simp [typeId]

theorem takes_readValueOfType {elementTy : Int32} {value : MetadataValue}
    (h : Entry.ValueFits elementTy value) :
    Takes (fun cursor => readValueOfType cursor value.typeId) (Entry.valueBytes elementTy value)
      value := by
  by_cases hscalar : value.Scalar
  · have hbytes : Entry.valueBytes elementTy value = value.scalarBytes := by
      cases value with
      | Array values => exact absurd hscalar id
      | _ => rfl
    rw [hbytes]
    exact (takes_readScalarOfType hscalar).of_eq fun cursor => if_neg hscalar.typeId_ne
  cases value with
  | Array values =>
    obtain ⟨hty, hlen, hvalues⟩ := h
    have hlt : values.length < 2 ^ 64 := Nat.lt_of_le_of_lt hlen maxArrayLen.toNat_lt
    have hcount := Cursor.takes_readU64 (.ofNat values.length)
    rw [UInt64.toNat_ofNat_of_lt' hlt] at hcount
    have helements := (takes_readElements hvalues).map MetadataValue.Array
    rw [← UInt64.toNat_ofNat_of_lt' hlt] at helements
    refine Takes.of_eq ?_ fun cursor => if_pos rfl
    refine (Cursor.takes_readI32 elementTy).bind (Takes.ite_neg hty (hcount.bind ?_))
    refine Takes.ite_neg ?_ helements
    rw [gt_iff_lt, UInt64.not_lt, UInt64.le_iff_toNat_le, UInt64.toNat_ofNat_of_lt' hlt]
    exact hlen
  | String value => exact absurd h hscalar
  | _ => exact absurd trivial hscalar

theorem takes_readValue {entry : Entry} (h : Entry.ValueFits entry.elementTy entry.value) :
    Takes readValue
      (toLeBytes 4 entry.value.typeId.toUInt32.toNat ++ Entry.valueBytes entry.elementTy entry.value)
      entry.value :=
  (Cursor.takes_readI32 entry.value.typeId).bind (takes_readValueOfType h)

/-- The map the entries are collected into: each new key goes in front. -/
def collect (entries : List Entry) (metadata : Metadata) : Metadata :=
  entries.foldl (fun metadata entry => metadata.insert entry.key entry.value) metadata

/-- Taking an entry in leaves the keys of the later ones new. -/
theorem notMem_insert {entry : Entry} {entries : List Entry} {metadata : Metadata}
    (hkey : entry.key ∉ entries.map (·.key))
    (hnew : ∀ later ∈ entry :: entries, later.key ∉ metadata) :
    ∀ later ∈ entries, later.key ∉ metadata.insert entry.key entry.value := by
  intro later hlater hmem
  rcases (AList.mem_insert _).mp hmem with heq | hmem
  · exact hkey (heq ▸ List.mem_map_of_mem hlater)
  · exact hnew later (List.mem_cons_of_mem _ hlater) hmem

theorem collect_entries {entries : List Entry} {metadata : Metadata}
    (hnodup : (entries.map (·.key)).Nodup) (hnew : ∀ entry ∈ entries, entry.key ∉ metadata) :
    (collect entries metadata).entries = (entries.map Entry.binding).reverse ++ metadata.entries := by
  induction entries generalizing metadata with
  | nil => rfl
  | cons entry entries ih =>
    rw [List.map_cons, List.nodup_cons] at hnodup
    have hfresh := hnew entry List.mem_cons_self
    show (collect entries (metadata.insert entry.key entry.value)).entries = _
    rw [ih hnodup.2 (notMem_insert hnodup.1 hnew), AList.entries_insert_of_notMem hfresh,
      List.map_cons, List.reverse_cons, List.append_assoc]
    rfl

theorem takes_readMetadataEntries {entries : List Entry} {metadata : Metadata}
    (hwell : ∀ entry ∈ entries, entry.WellFormed) (hnodup : (entries.map (·.key)).Nodup)
    (hnew : ∀ entry ∈ entries, entry.key ∉ metadata) :
    Takes (fun cursor => readMetadataEntries entries.length cursor metadata)
      (entries.flatMap Entry.bytes) (collect entries metadata) := by
  induction entries generalizing metadata with
  | nil => exact Takes.ok metadata
  | cons entry entries ih =>
    rw [List.map_cons, List.nodup_cons] at hnodup
    have hentry := hwell entry List.mem_cons_self
    have hfresh := hnew entry List.mem_cons_self
    rw [List.flatMap_cons, Entry.bytes, List.append_assoc]
    refine (Cursor.takes_readString hentry.key).bind ?_
    refine (takes_readValue hentry.value).bind (Takes.ite_neg hfresh ?_)
    exact ih (fun later hlater => hwell later (List.mem_cons_of_mem _ hlater)) hnodup.2
      (notMem_insert hnodup.1 hnew)

-- ---------------------------------------------------------------------------
-- Tensor descriptors
-- ---------------------------------------------------------------------------

/-- The id a tensor type has on the wire. -/
def TensorType.typeId : TensorType → Int32
  | .F32 => 0
  | .F16 => 1
  | .Q4_0 => 2
  | .Q4_1 => 3
  | .Q5_0 => 6
  | .Q5_1 => 7
  | .Q8_0 => 8
  | .Q8_1 => 9
  | .Q2K => 10
  | .Q3K => 11
  | .Q4K => 12
  | .Q5K => 13
  | .Q6K => 14
  | .Q8K => 15
  | .IQ4NL => 20
  | .IQ4XS => 23
  | .Tq1_0 => 34
  | .Tq2_0 => 35
  | .I8 => 24
  | .I16 => 25
  | .I32 => 26
  | .I64 => 27
  | .F64 => 28
  | .BF16 => 30
  | .NVFP4 => 40
  | .Unknown id => id

/-- Every type that has a layout is read back from its id. -/
theorem TensorType.fromId_typeId {ty : TensorType} {layout : UInt64 × UInt64}
    (h : ty.layout = some layout) : fromId ty.typeId = ty := by
  cases ty with
  | Unknown id => cases h
  | _ => decide

namespace TensorDescriptor

/-- The part of a descriptor that stands in the file. -/
def raw (tensor : TensorDescriptor) : RawTensor :=
  ⟨tensor.name, tensor.dimensions, tensor.tensorType, tensor.relativeOffset⟩

def bytes (tensor : TensorDescriptor) : List UInt8 :=
  stringBytes tensor.name ++
    (toLeBytes 4 tensor.dimensions.length ++
      (tensor.dimensions.flatMap (fun dim => toLeBytes 8 dim.toNat) ++
        (toLeBytes 4 tensor.tensorType.typeId.toUInt32.toNat ++
          toLeBytes 8 tensor.relativeOffset.toNat)))

/-- A tensor the format can carry: a short name, one to four dimensions below
`2 ^ 63`, whole blocks of a known type, and a size that can be counted out in
64-bit words. -/
structure WellFormed (tensor : TensorDescriptor) : Prop where
  name : (Utf8.encode tensor.name).length < maxTensorName
  rank : 1 ≤ tensor.dimensions.length ∧ tensor.dimensions.length ≤ maxTensorDims.toNat
  dimensions : ∀ dim ∈ tensor.dimensions, dim.toNat < 2 ^ 63
  counted : ∀ rank, elements (tensor.dimensions.take rank) < 2 ^ 64
  sized : ∃ block size, tensor.tensorType.layout = some (block, size) ∧
    block.toNat ∣ (tensor.dimensions.head?.getD 1).toNat ∧
    tensor.nBytes.toNat = elements tensor.dimensions / block.toNat * size.toNat

end TensorDescriptor

/-- A word below `2 ^ 63` is the same number as a signed one. -/
theorem toInt_toInt64 {value : UInt64} (h : value.toNat < 2 ^ 63) :
    value.toInt64.toInt = value.toNat := by
  have hvalue : value.toInt64 = Int64.ofNat value.toNat := by
    rw [← UInt64.toInt64_ofNat', UInt64.ofNat_toNat]
  rw [hvalue, Int64.toInt_ofNat_of_lt h]

theorem takes_readDimensions {name : Str} {dimensions : List UInt64}
    (h : ∀ dim ∈ dimensions, dim.toNat < 2 ^ 63) :
    Takes (readDimensions name dimensions.length)
      (dimensions.flatMap fun dim => toLeBytes 8 dim.toNat) dimensions := by
  induction dimensions with
  | nil => exact Takes.ok []
  | cons dim dimensions ih =>
    have hread := Cursor.takes_readI64 dim.toInt64
    rw [UInt64.toUInt64_toInt64] at hread
    have hrest := (ih fun dim hmem => h dim (List.mem_cons_of_mem _ hmem)).map (dim :: ·)
    rw [List.flatMap_cons]
    refine hread.bind (Takes.ite_neg ?_ ?_)
    · rw [Int64.lt_iff_toInt_lt, toInt_toInt64 (h dim List.mem_cons_self), Int64.toInt_zero]
      omega
    · rwa [UInt64.toUInt64_toInt64]

theorem takes_readRawTensor {tensor : TensorDescriptor} (h : tensor.WellFormed) :
    Takes readRawTensor tensor.bytes tensor.raw := by
  obtain ⟨block, size, hlayout, -, -⟩ := h.sized
  obtain ⟨hone, hfour⟩ := h.rank
  have hlt : tensor.dimensions.length < 2 ^ 32 := Nat.lt_of_le_of_lt hfour maxTensorDims.toNat_lt
  have hstring : (Utf8.encode tensor.name).length ≤ maxStringBytes.toNat :=
    Nat.le_trans (Nat.le_of_lt h.name) (by decide)
  have hrank := Cursor.takes_readU32 (.ofNat tensor.dimensions.length)
  rw [UInt32.toNat_ofNat_of_lt' hlt] at hrank
  have hdimensions : Takes (readDimensions tensor.name (UInt32.ofNat tensor.dimensions.length).toNat)
      (tensor.dimensions.flatMap fun dim => toLeBytes 8 dim.toNat) tensor.dimensions := by
    rw [UInt32.toNat_ofNat_of_lt' hlt]
    exact takes_readDimensions h.dimensions
  refine (Cursor.takes_readString hstring).bind (Takes.ite_neg (Nat.not_le.mpr h.name) ?_)
  refine hrank.bind (Takes.ite_neg ?_ ?_)
  · rw [Bool.or_eq_true, beq_iff_eq, decide_eq_true_eq, gt_iff_lt, UInt32.lt_iff_toNat_lt,
      ← UInt32.toNat_inj, UInt32.toNat_ofNat_of_lt' hlt, UInt32.toNat_zero]
    omega
  refine hdimensions.bind ?_
  refine (Cursor.takes_readI32 tensor.tensorType.typeId).bind ?_
  have hraw : tensor.raw = ⟨tensor.name, tensor.dimensions, .fromId tensor.tensorType.typeId,
      tensor.relativeOffset⟩ := by
    rw [TensorType.fromId_typeId hlayout]
    rfl
  rw [hraw]
  exact (Cursor.takes_readU64 tensor.relativeOffset).map fun relativeOffset =>
    RawTensor.mk tensor.name tensor.dimensions (.fromId tensor.tensorType.typeId) relativeOffset

theorem takes_readRawTensors {tensors : List TensorDescriptor}
    (h : ∀ tensor ∈ tensors, tensor.WellFormed) :
    Takes (readRawTensors tensors.length) (tensors.flatMap TensorDescriptor.bytes)
      (tensors.map TensorDescriptor.raw) := by
  induction tensors with
  | nil => exact Takes.ok []
  | cons tensor tensors ih =>
    rw [List.flatMap_cons]
    refine (takes_readRawTensor (h tensor List.mem_cons_self)).bind ?_
    exact (ih fun later hlater => h later (List.mem_cons_of_mem _ hlater)).map (tensor.raw :: ·)

-- ---------------------------------------------------------------------------
-- Sizes and placement
-- ---------------------------------------------------------------------------

theorem elementCount_ok {name : Str} {dimensions : List UInt64} {start : UInt64}
    (h : ∀ rank, start.toNat * elements (dimensions.take rank) < 2 ^ 64) :
    ∃ count, elementCount name dimensions start = .ok count := by
  induction dimensions generalizing start with
  | nil => exact ⟨start, rfl⟩
  | cons dim dims ih =>
    have hstep : ∀ rank, elements ((dim :: dims).take (rank + 1)) =
        dim.toNat * elements (dims.take rank) := by
      intro rank
      rw [List.take_succ_cons, elements, List.map_cons, List.prod_cons, elements]
    have hlt : start.toNat * dim.toNat < 2 ^ 64 := by
      have := h 1
      rwa [hstep, List.take_zero, elements, List.map_nil, List.prod_nil, Nat.mul_one] at this
    have hmul : checkedMul start dim = some (start * dim) := if_pos hlt
    rw [elementCount, hmul, Outcome.okOr_some, Outcome.ok_bind]
    refine ih fun rank => ?_
    rw [checkedMul_eq_some.mp hmul, Nat.mul_assoc, ← hstep]
    exact h (rank + 1)

theorem tensorNbytes_ok {tensor : TensorDescriptor} (h : tensor.WellFormed) :
    tensorNbytes tensor.name tensor.dimensions tensor.tensorType = .ok tensor.nBytes := by
  obtain ⟨block, size, hlayout, hfirst, hbytes⟩ := h.sized
  have hblock := TensorType.layout_block_pos hlayout
  obtain ⟨count, hcount⟩ : ∃ count, elementCount tensor.name tensor.dimensions 1 = .ok count := by
    refine elementCount_ok fun rank => ?_
    rw [UInt64.toNat_one, Nat.one_mul]
    exact h.counted rank
  have hvalue : count.toNat = elements tensor.dimensions := by
    rw [elementCount_eq_ok hcount, UInt64.toNat_one, Nat.one_mul]
  have hdiv : checkedDiv count block = some (count / block) := by
    refine if_neg ?_
    rintro rfl
    exact absurd hblock (by decide)
  have hmul : checkedMul (count / block) size = some tensor.nBytes := by
    rw [checkedMul_eq_some, UInt64.toNat_div, hvalue, hbytes]
  have hwhole : ¬(tensor.dimensions.head?.getD 1) % block ≠ 0 := by
    rw [not_not, ← UInt64.toNat_inj, UInt64.toNat_mod, UInt64.toNat_zero]
    exact Nat.mod_eq_zero_of_dvd hfirst
  unfold tensorNbytes
  rw [hlayout, Outcome.okOr_some, Outcome.ok_bind]
  dsimp only
  rw [if_neg hwhole, hcount, Outcome.ok_bind, hdiv, Option.bind_some, hmul, Outcome.okOr_some]

/-- `align_to` returns wherever the aligned offset is a 64-bit word. -/
theorem alignTo_ok {value alignment : UInt64} (hpow : isPowerOfTwo alignment = true)
    (hlt : alignUp value.toNat alignment.toNat < 2 ^ 64) :
    ∃ result, alignTo value alignment = .ok result ∧
      result.toNat = alignUp value.toNat alignment.toNat := by
  obtain ⟨k, hk⟩ := exists_pow_of_isPowerOfTwo hpow
  have hone : (1 : UInt64).toNat ≤ alignment.toNat := by
    rw [hk, UInt64.toNat_one]
    exact Nat.one_le_two_pow
  have hsub : (plainSub alignment 1 : EngineResult UInt64) = .ok (alignment - 1) :=
    plainSub_eq_ok.mpr ⟨hone, rfl⟩
  have hmask : (alignment - 1).toNat = alignment.toNat - 1 :=
    UInt64.toNat_sub_of_le _ _ (UInt64.le_iff_toNat_le.mpr hone)
  have hsum : value.toNat + (alignment.toNat - 1) < 2 ^ 64 := by
    -- 2 ^ 64 is a multiple of the alignment, so a sum that reaches it rounds to it
    by_contra hover
    obtain ⟨q, hq⟩ : alignment.toNat ∣ 2 ^ 64 := by
      rw [hk]
      refine Nat.pow_dvd_pow 2 ?_
      by_contra hlarge
      have := Nat.pow_lt_pow_right (a := 2) (by omega) (Nat.not_le.mp hlarge)
      have := alignment.toNat_lt
      omega
    have hle : q ≤ (value.toNat + (alignment.toNat - 1)) / alignment.toNat := by
      rw [Nat.le_div_iff_mul_le (by rw [hk]; exact Nat.two_pow_pos k), Nat.mul_comm, ← hq]
      exact Nat.not_lt.mp hover
    have := Nat.mul_le_mul_right alignment.toNat hle
    rw [Nat.mul_comm q, ← hq] at this
    exact absurd hlt (Nat.not_lt.mpr this)
  have hadd : checkedAdd value (alignment - 1) = some (value + (alignment - 1)) :=
    if_pos (by rw [hmask]; exact hsum)
  have hok : alignTo value alignment =
      .ok ((value + (alignment - 1)) &&& ~~~(alignment - 1)) := by
    rw [alignTo, hsub, Outcome.ok_bind, hadd, Option.map_some, Outcome.okOr_some]
  exact ⟨_, hok, alignTo_eq_ok hpow hok⟩

/-- The descriptors are laid out from `offset` on: each where the aligned span of
the one before it ended, and inside the file. -/
def LaidOut (alignment dataStart declaredLen : Nat) : Nat → List TensorDescriptor → Prop
  | _, [] => True
  | offset, tensor :: tensors =>
    tensor.relativeOffset.toNat = offset ∧
      tensor.absoluteOffset.toNat = dataStart + offset ∧
      tensor.absoluteOffset.toNat + tensor.nBytes.toNat ≤ declaredLen ∧
      alignUp (offset + tensor.nBytes.toNat) alignment < 2 ^ 64 ∧
      LaidOut alignment dataStart declaredLen (alignUp (offset + tensor.nBytes.toNat) alignment)
        tensors

theorem placeTensors_ok {alignment dataStart declaredLen expectedOffset : UInt64}
    {tensors : List TensorDescriptor} {seenNames : List Str}
    (hpow : isPowerOfTwo alignment = true) (hwell : ∀ tensor ∈ tensors, tensor.WellFormed)
    (hnames : (tensors.map (·.name)).Nodup) (hnew : ∀ tensor ∈ tensors, tensor.name ∉ seenNames)
    (hlaid : LaidOut alignment.toNat dataStart.toNat declaredLen.toNat expectedOffset.toNat
      tensors) :
    placeTensors alignment dataStart declaredLen (tensors.map TensorDescriptor.raw) seenNames
      expectedOffset = .ok tensors := by
  induction tensors generalizing seenNames expectedOffset with
  | nil => rfl
  | cons tensor tensors ih =>
    obtain ⟨hoffset, habsolute, hinFile, hnext, hrest⟩ := hlaid
    rw [List.map_cons, List.nodup_cons] at hnames
    -- nothing overflows, since the tensor ends within the declared length
    have hlen := declaredLen.toNat_lt
    have hstart : checkedAdd dataStart tensor.relativeOffset = some tensor.absoluteOffset := by
      rw [checkedAdd_eq_some, habsolute, hoffset]
    have hfinish : checkedAdd tensor.absoluteOffset tensor.nBytes =
        some (tensor.absoluteOffset + tensor.nBytes) := if_pos (by omega)
    have hspan : checkedAdd tensor.relativeOffset tensor.nBytes =
        some (tensor.relativeOffset + tensor.nBytes) := if_pos (by omega)
    have hend : ¬tensor.absoluteOffset + tensor.nBytes > declaredLen := by
      rw [gt_iff_lt, UInt64.not_lt, UInt64.le_iff_toNat_le, checkedAdd_eq_some.mp hfinish]
      exact hinFile
    rw [← hoffset, ← checkedAdd_eq_some.mp hspan] at hnext hrest
    obtain ⟨next, halign, hvalue⟩ := alignTo_ok hpow hnext
    rw [← hvalue] at hrest
    have hfresh : ∀ later ∈ tensors, later.name ∉ tensor.name :: seenNames := by
      intro later hmem hseen
      rcases List.mem_cons.mp hseen with heq | hseen
      · exact hnames.1 (heq ▸ List.mem_map_of_mem hmem)
      · exact hnew later (List.mem_cons_of_mem _ hmem) hseen
    have hlater := ih (fun later hmem => hwell later (List.mem_cons_of_mem _ hmem)) hnames.2 hfresh
      hrest
    rw [List.map_cons, placeTensors]
    refine (if_neg (hnew tensor List.mem_cons_self)).trans ?_
    refine (if_neg (not_not.mpr (UInt64.toNat_inj.mp hoffset))).trans ?_
    show (tensorNbytes tensor.name tensor.dimensions tensor.tensorType >>= _) = _
    rw [tensorNbytes_ok (hwell tensor List.mem_cons_self), Outcome.ok_bind]
    show (Outcome.okOr _ (checkedAdd dataStart tensor.relativeOffset) >>= _) = _
    rw [hstart, Outcome.okOr_some, Outcome.ok_bind, hfinish, Outcome.okOr_some, Outcome.ok_bind,
      if_neg hend]
    show (Outcome.okOr _ (checkedAdd tensor.relativeOffset tensor.nBytes) >>= _) = _
    rw [hspan, Outcome.okOr_some, Outcome.ok_bind, halign, Outcome.ok_bind]
    show (placeTensors _ _ _ _ (tensor.name :: seenNames) next >>= _) = _
    rw [hlater, Outcome.ok_bind]
    rfl

-- ---------------------------------------------------------------------------
-- What a built reader leaves of a shorter input
-- ---------------------------------------------------------------------------

/-- A reader that returned took some bytes: it takes them whatever follows, and
starves on less. -/
def Streams {α : Type} (read : Cursor → EngineResult (α × Cursor)) : Prop :=
  ∀ {cursor value next}, read cursor = .ok (value, next) →
    ∃ taken, cursor.remaining = taken ++ next.remaining ∧
      next.pos.toNat = cursor.pos.toNat + taken.length ∧ Takes read taken value ∧
      Starves read taken

namespace Starves

variable {α β : Type}

theorem nil (read : Cursor → EngineResult (α × Cursor)) : Starves read [] := by
  intro short pos hfront hne _
  exact absurd (List.prefix_nil.mp hfront) hne

/-- The cut falls into what the first of two readers takes, or into the rest. -/
theorem bind {read : Cursor → EngineResult (α × Cursor)}
    {rest : α × Cursor → EngineResult (β × Cursor)} {bytes more : List UInt8} {value : α}
    (hread : Starves read bytes) (htakes : Takes read bytes value)
    (hrest : Starves (fun cursor => rest (value, cursor)) more) :
    Starves (fun cursor => read cursor >>= rest) (bytes ++ more) := by
  intro short pos hfront hne hpos
  rw [List.length_append] at hpos
  by_cases hearly : short <+: bytes ∧ short ≠ bytes
  · obtain ⟨message, herr⟩ := hread short pos hearly.1 hearly.2 (by omega)
    refine ⟨message, ?_⟩
    show (read ⟨short, pos⟩ >>= rest) = _
    rw [herr, Outcome.err_bind]
  · obtain ⟨left, rfl⟩ : bytes <+: short := by
      rcases List.prefix_or_prefix_of_prefix hfront (List.prefix_append bytes more) with h | h
      · rw [not_not.mp fun hne => hearly ⟨h, hne⟩]
      · exact h
    have hmid : (pos + .ofNat bytes.length).toNat = pos.toNat + bytes.length :=
      toNat_advance (by omega)
    obtain ⟨message, herr⟩ := hrest left (pos + .ofNat bytes.length)
      ((List.prefix_append_right_inj bytes).mp hfront) (fun heq => hne (by rw [heq]))
      (by rw [hmid]; omega)
    refine ⟨message, ?_⟩
    show (read ⟨bytes ++ left, pos⟩ >>= rest) = _
    rw [htakes left pos (by omega), Outcome.ok_bind]
    exact herr

end Starves

theorem Cursor.streams_readBytes {n : Nat} (hn : n < 2 ^ 64) :
    Streams fun cursor => cursor.readBytes n := by
  intro cursor value next h
  simp only [readBytes] at h
  split at h
  · rename_i hlen
    obtain ⟨pos, hpos, hval⟩ := Outcome.bind_eq_ok.mp h
    obtain ⟨rfl, rfl⟩ := Prod.mk.inj (Outcome.ok.inj hval)
    have htaken : (cursor.remaining.take n).length = n := List.length_take_of_le hlen
    refine ⟨cursor.remaining.take n, (List.take_append_drop n _).symm, ?_,
      takes_readBytes htaken, ?_⟩
    · rw [checkedAdd_eq_some.mp (Outcome.okOr_eq_ok.mp hpos), htaken,
        UInt64.toNat_ofNat_of_lt' hn]
    · intro short start hfront hne _
      have hle := hfront.length_le
      have hlt : short.length < n := by
        rw [htaken] at hle
        exact Nat.lt_of_le_of_ne hle fun heq => hne (hfront.eq_of_length (heq.trans htaken.symm))
      exact ⟨_, if_neg (Nat.not_le.mpr hlt)⟩
  · cases h

theorem Built.streams {α : Type} {read : Cursor → EngineResult (α × Cursor)} (h : Built read) :
    Streams read := by
  induction h with
  | ok value =>
    intro cursor value' next h
    obtain ⟨rfl, rfl⟩ := Prod.mk.inj (Outcome.ok.inj h)
    exact ⟨[], rfl, rfl, .ok _, .nil _⟩
  | err e =>
    intro cursor value next h
    cases h
  | readBytes hn => exact Cursor.streams_readBytes hn
  | bind _ _ hread hrest =>
    intro cursor value next h
    obtain ⟨⟨value', mid⟩, hfirst, hsecond⟩ := Outcome.bind_eq_ok.mp h
    obtain ⟨taken, hbytes, hpos, htakes, hstarves⟩ := hread hfirst
    obtain ⟨taken', hbytes', hpos', htakes', hstarves'⟩ := hrest value' hsecond
    refine ⟨taken ++ taken', ?_, ?_, htakes.bind htakes', hstarves.bind htakes hstarves'⟩
    · rw [hbytes, hbytes', List.append_assoc]
    · rw [hpos', hpos, List.length_append, Nat.add_assoc]
  | bindValue _ _ hrest =>
    intro cursor b next h
    obtain ⟨a, hvalue, ha⟩ := Outcome.bind_eq_ok.mp h
    obtain ⟨taken, hbytes, hpos, htakes, hstarves⟩ := hrest a ha
    subst hvalue
    exact ⟨taken, hbytes, hpos, htakes, hstarves⟩

-- ---------------------------------------------------------------------------
-- The header
-- ---------------------------------------------------------------------------

/-- What the parser has read when it stops reading. -/
structure Header where
  version : UInt32
  tensorCount : Int64
  metadataCount : Int64
  metadata : Metadata
  alignment : UInt64
  rawTensors : List RawTensor

/-- The part of the parse that reads. -/
def readHeader (cursor : Cursor) : EngineResult (Header × Cursor) := do
  let (magic, cursor) ← cursor.readBytes 4
  if magic ≠ ggufMagic then
    .err (.InvalidGguf "bad magic; expected GGUF")
  else
    let (version, cursor) ← cursor.readU32
    if version < 2 || 3 < version then
      .err (.UnsupportedGguf s!"version {version}; expected v2 or v3")
    else
      let (tensorCount, cursor) ← cursor.readI64
      let (metadataCount, cursor) ← cursor.readI64
      if tensorCount < 0 || metadataCount < 0 then
        .err (.InvalidGguf "negative tensor or metadata count")
      else
        let (metadata, cursor) ← readMetadataEntries metadataCount.toInt.toNat cursor ∅
        let alignment ← readAlignment metadata
        let (rawTensors, cursor) ← readRawTensors tensorCount.toInt.toNat cursor
        .ok (⟨version, tensorCount, metadataCount, metadata, alignment, rawTensors⟩, cursor)

/-- The part of the parse that computes, from where the cursor stopped. -/
def Header.place (header : Header) (pos declaredLen : UInt64) : EngineResult GgufFile := do
  let dataStartOffset ← alignTo pos header.alignment
  if dataStartOffset > declaredLen then
    .err (.InvalidGguf "aligned tensor data start is beyond end of file")
  else
    let tensors ← placeTensors header.alignment dataStartOffset declaredLen header.rawTensors [] 0
    .ok ⟨header.version, header.tensorCount, header.metadataCount, header.alignment,
      dataStartOffset, header.metadata, tensors⟩

theorem readMetadataWithLen_eq (bytes : List UInt8) (declaredLen : UInt64) :
    readMetadataWithLen bytes declaredLen =
      readHeader ⟨bytes, 0⟩ >>= fun (header, cursor) => header.place cursor.pos declaredLen := by
  unfold readMetadataWithLen readHeader Header.place
  simp only [bind_assoc]
  refine bind_congr ?_
  rintro ⟨magic, cursor⟩
  dsimp only
  split
  · rfl
  simp only [bind_assoc]
  refine bind_congr ?_
  rintro ⟨version, cursor⟩
  dsimp only
  split
  · rfl
  simp only [bind_assoc]
  refine bind_congr ?_
  rintro ⟨tensorCount, cursor⟩
  refine bind_congr ?_
  rintro ⟨metadataCount, cursor⟩
  dsimp only
  split
  · rfl
  simp only [bind_assoc]
  rfl

theorem built_readHeader : Built readHeader := by
  unfold readHeader
  refine (Built.readBytes (by decide)).bind fun magic => Built.ite (Built.err _) ?_
  refine Cursor.built_readU32.bind fun version => Built.ite (Built.err _) ?_
  refine Cursor.built_readI64.bind fun tensorCount => ?_
  refine Cursor.built_readI64.bind fun metadataCount => Built.ite (Built.err _) ?_
  refine (built_readMetadataEntries _ _).bind fun metadata => ?_
  refine Built.bindValue (readAlignment_noFault metadata) fun alignment => ?_
  exact (built_readRawTensors _).bind fun rawTensors => Built.ok _

theorem readHeader_alignment {cursor next : Cursor} {header : Header}
    (h : readHeader cursor = .ok (header, next)) : isPowerOfTwo header.alignment = true := by
  obtain ⟨⟨magic, cursor₀⟩, -, h⟩ := Outcome.bind_eq_ok.mp h
  dsimp only at h
  split at h
  · cases h
  obtain ⟨⟨version, cursor₁⟩, -, h⟩ := Outcome.bind_eq_ok.mp h
  dsimp only at h
  split at h
  · cases h
  obtain ⟨⟨tensorCount, cursor₂⟩, -, h⟩ := Outcome.bind_eq_ok.mp h
  obtain ⟨⟨metadataCount, cursor₃⟩, -, h⟩ := Outcome.bind_eq_ok.mp h
  dsimp only at h
  split at h
  · cases h
  obtain ⟨⟨metadata, entries⟩, -, h⟩ := Outcome.bind_eq_ok.mp h
  obtain ⟨alignment, halignment, h⟩ := Outcome.bind_eq_ok.mp h
  obtain ⟨⟨rawTensors, descriptors⟩, -, h⟩ := Outcome.bind_eq_ok.mp h
  obtain ⟨rfl, -⟩ := Prod.mk.inj (Outcome.ok.inj h)
  exact readAlignment_eq_ok halignment

-- ---------------------------------------------------------------------------
-- Documents
-- ---------------------------------------------------------------------------

/-- A header as a writer has it. -/
structure Document where
  version : UInt32
  metadata : List Entry
  alignment : UInt64
  tensors : List TensorDescriptor

namespace Document

def bytes (document : Document) : List UInt8 :=
  ggufMagic ++
    (toLeBytes 4 document.version.toNat ++
      (toLeBytes 8 document.tensors.length ++
        (toLeBytes 8 document.metadata.length ++
          (document.metadata.flatMap Entry.bytes ++
            document.tensors.flatMap TensorDescriptor.bytes))))

/-- Where the tensor data of the file starts. -/
def dataStart (document : Document) : Nat :=
  alignUp document.bytes.length document.alignment.toNat

/-- The entries declare this alignment, or leave it at the default. -/
def Declares (entries : List Entry) (alignment : UInt64) : Prop :=
  (∃ entry ∈ entries, entry.key = "general.alignment".toList ∧
    (entry.value = .U64 alignment ∨
      ∃ value : UInt32, entry.value = .U32 value ∧ value.toUInt64 = alignment)) ∨
  (∀ entry ∈ entries, entry.key ≠ "general.alignment".toList) ∧ alignment = defaultAlignment

/-- A header of the format, for a file of `declaredLen` bytes. -/
structure WellFormed (document : Document) (declaredLen : UInt64) : Prop where
  version : document.version = 2 ∨ document.version = 3
  tensorCount : document.tensors.length < 2 ^ 63
  metadataCount : document.metadata.length < 2 ^ 63
  entries : ∀ entry ∈ document.metadata, entry.WellFormed
  keys : (document.metadata.map (·.key)).Nodup
  alignmentPow : ∃ k, document.alignment.toNat = 2 ^ k
  alignmentDeclared : Declares document.metadata document.alignment
  tensors : ∀ tensor ∈ document.tensors, tensor.WellFormed
  names : (document.tensors.map (·.name)).Nodup
  dataStart : document.dataStart ≤ declaredLen.toNat
  laidOut : LaidOut document.alignment.toNat document.dataStart declaredLen.toNat 0 document.tensors

/-- The parser returned exactly what was written. The metadata is a map, so its
entries are the written ones in any order. -/
structure ReadAs (document : Document) (file : GgufFile) : Prop where
  version : file.version = document.version
  tensorCount : file.tensorCount.toInt = document.tensors.length
  metadataCount : file.metadataCount.toInt = document.metadata.length
  alignment : file.alignment = document.alignment
  dataStart : file.dataStartOffset.toNat = document.dataStart
  metadata : file.metadata.entries.Perm (document.metadata.map Entry.binding)
  tensors : file.tensors = document.tensors

theorem collect_perm {entries : List Entry} (hkeys : (entries.map (·.key)).Nodup) :
    (collect entries ∅).entries.Perm (entries.map Entry.binding) := by
  rw [collect_entries hkeys (fun _ _ => AList.notMem_empty _)]
  exact (List.append_nil _ ▸ List.reverse_perm _)

/-- The alignment the entries declare is the one the parser reads off their map. -/
theorem readAlignment_collect {entries : List Entry} {alignment : UInt64}
    (hkeys : (entries.map (·.key)).Nodup) (hdeclares : Declares entries alignment)
    (hpow : isPowerOfTwo alignment = true) :
    readAlignment (collect entries ∅) = .ok alignment := by
  have hdeclared : declaredAlignment (collect entries ∅) = .ok alignment := by
    unfold declaredAlignment
    rcases hdeclares with ⟨entry, hmem, hkey, hvalue⟩ | ⟨hnone, rfl⟩
    · have hlookup : (collect entries ∅).lookup "general.alignment".toList = some entry.value := by
        refine AList.mem_lookup_iff.mpr ((collect_perm hkeys).mem_iff.mpr ?_)
        exact hkey ▸ List.mem_map_of_mem hmem
      rw [hlookup]
      rcases hvalue with hvalue | ⟨value, hvalue, rfl⟩
      · rw [hvalue]
      · rw [hvalue]
    · have hlookup : (collect entries ∅).lookup "general.alignment".toList = none := by
        rw [Option.eq_none_iff_forall_not_mem]
        intro value hvalue
        have hmem := (collect_perm hkeys).mem_iff.mp (AList.mem_lookup_iff.mp hvalue)
        obtain ⟨entry, hentry, heq⟩ := List.mem_map.mp hmem
        exact hnone entry hentry (congrArg Sigma.fst heq)
      rw [hlookup]
  have hzero : ¬(alignment == 0 || !isPowerOfTwo alignment) = true := by
    obtain ⟨k, hk⟩ := exists_pow_of_isPowerOfTwo hpow
    rw [hpow, Bool.not_true, Bool.or_false, beq_iff_eq, ← UInt64.toNat_inj, hk, UInt64.toNat_zero]
    exact (Nat.two_pow_pos k).ne'
  rw [readAlignment, hdeclared, Outcome.ok_bind, if_neg hzero]

theorem takes_readHeader {document : Document} {declaredLen : UInt64}
    (h : document.WellFormed declaredLen) :
    Takes readHeader document.bytes
      ⟨document.version, .ofNat document.tensors.length, .ofNat document.metadata.length,
        collect document.metadata ∅, document.alignment,
        document.tensors.map TensorDescriptor.raw⟩ := by
  have hpow : isPowerOfTwo document.alignment = true := by
    obtain ⟨k, hk⟩ := h.alignmentPow
    rw [isPowerOfTwo, hk, Nat.log2_two_pow, beq_self_eq_true]
  -- a count below 2^63 is read back as written
  have hcount : ∀ {n : Nat}, n < 2 ^ 63 → Takes Cursor.readI64 (toLeBytes 8 n) (.ofNat n) ∧
      (Int64.ofNat n).toInt.toNat = n := by
    intro n hn
    have hread := Cursor.takes_readI64 (.ofNat n)
    have hword : (Int64.ofNat n).toUInt64.toNat = n := by
      have hsize : n < UInt64.size := Nat.lt_trans hn (by decide)
      rw [← UInt64.toInt64_ofNat', UInt64.toUInt64_toInt64, UInt64.toNat_ofNat_of_lt' hsize]
    rw [hword] at hread
    refine ⟨hread, ?_⟩
    rw [Int64.toInt_ofNat_of_lt hn, Int.toNat_natCast]
  obtain ⟨htensors, htensorCount⟩ := hcount h.tensorCount
  obtain ⟨hmetadata, hmetadataCount⟩ := hcount h.metadataCount
  have hmagic : Takes (fun cursor => cursor.readBytes 4) ggufMagic ggufMagic :=
    Cursor.takes_readBytes rfl
  refine hmagic.bind (Takes.ite_neg (not_not.mpr rfl) ?_)
  refine (Cursor.takes_readU32 document.version).bind (Takes.ite_neg ?_ ?_)
  · rcases h.version with hversion | hversion
    · rw [hversion]
      decide
    · rw [hversion]
      decide
  refine htensors.bind (hmetadata.bind (Takes.ite_neg ?_ ?_))
  · rw [Bool.or_eq_true, decide_eq_true_eq, decide_eq_true_eq, Int64.lt_iff_toInt_lt,
      Int64.lt_iff_toInt_lt, Int64.toInt_ofNat_of_lt h.tensorCount,
      Int64.toInt_ofNat_of_lt h.metadataCount, Int64.toInt_zero]
    omega
  have hentries := takes_readMetadataEntries h.entries h.keys fun _ _ => AList.notMem_empty _
  have hraw := takes_readRawTensors h.tensors
  rw [← hmetadataCount] at hentries
  rw [← htensorCount] at hraw
  have hheader := hraw.map fun rawTensors =>
    Header.mk document.version (.ofNat document.tensors.length) (.ofNat document.metadata.length)
      (collect document.metadata ∅) document.alignment rawTensors
  refine hentries.bind (hheader.of_eq fun cursor => ?_)
  dsimp only
  rw [readAlignment_collect h.keys h.alignmentDeclared hpow, Outcome.ok_bind]

/-- Whatever follows it, a well-formed header parses to what was written. -/
theorem parse_bytes {document : Document} {declaredLen : UInt64}
    (h : document.WellFormed declaredLen) (data : List UInt8) :
    ∃ file, readMetadataWithLen (document.bytes ++ data) declaredLen = .ok file ∧
      document.ReadAs file := by
  have hpow : isPowerOfTwo document.alignment = true := by
    obtain ⟨k, hk⟩ := h.alignmentPow
    rw [isPowerOfTwo, hk, Nat.log2_two_pow, beq_self_eq_true]
  have hpos : 0 < document.alignment.toNat := by
    obtain ⟨k, hk⟩ := h.alignmentPow
    rw [hk]
    exact Nat.two_pow_pos k
  have hstart : document.dataStart < 2 ^ 64 := Nat.lt_of_le_of_lt h.dataStart declaredLen.toNat_lt
  have hlen : document.bytes.length < 2 ^ 64 := Nat.lt_of_le_of_lt (le_alignUp hpos) hstart
  have hread := takes_readHeader h data 0 (by rw [UInt64.toNat_zero, Nat.zero_add]; exact hlen)
  have hend : ((0 : UInt64) + .ofNat document.bytes.length).toNat = document.bytes.length := by
    rw [UInt64.zero_add, UInt64.toNat_ofNat_of_lt' hlen]
  have hfits : alignUp ((0 : UInt64) + .ofNat document.bytes.length).toNat
      document.alignment.toNat < 2 ^ 64 := by
    rw [hend]
    exact hstart
  obtain ⟨dataStartOffset, halign, hvalue⟩ := alignTo_ok hpow hfits
  have hdataStart : dataStartOffset.toNat = document.dataStart := by rw [hvalue, hend, dataStart]
  have hinFile : ¬dataStartOffset > declaredLen := by
    rw [gt_iff_lt, UInt64.not_lt, UInt64.le_iff_toNat_le, hdataStart]
    exact h.dataStart
  have hlaid := h.laidOut
  rw [← hdataStart, ← UInt64.toNat_zero] at hlaid
  have hplaced := placeTensors_ok hpow h.tensors h.names (fun _ _ => List.not_mem_nil) hlaid
  refine ⟨⟨document.version, .ofNat document.tensors.length, .ofNat document.metadata.length,
    document.alignment, dataStartOffset, collect document.metadata ∅, document.tensors⟩, ?_, ?_⟩
  · rw [readMetadataWithLen_eq, hread, Outcome.ok_bind]
    dsimp only [Header.place]
    rw [halign, Outcome.ok_bind, if_neg hinFile, hplaced, Outcome.ok_bind]
  · exact {
      version := rfl
      tensorCount := Int64.toInt_ofNat_of_lt h.tensorCount
      metadataCount := Int64.toInt_ofNat_of_lt h.metadataCount
      alignment := rfl
      dataStart := hdataStart
      metadata := collect_perm h.keys
      tensors := rfl }

end Document

/-- A file that was accepted was so on its header alone: cut anywhere behind the
header it parses the same, and cut anywhere inside it is an unexpected end. -/
theorem prefix_of_ok {bytes : List UInt8} {declaredLen : UInt64} {file : GgufFile}
    (h : readMetadataWithLen bytes declaredLen = .ok file) :
    ∃ headerLen ≤ bytes.length,
      file.dataStartOffset.toNat = alignUp headerLen file.alignment.toNat ∧
      (∀ n, headerLen ≤ n → readMetadataWithLen (bytes.take n) declaredLen = .ok file) ∧
      ∀ n < headerLen, ∀ shortLen, ∃ message,
        readMetadataWithLen (bytes.take n) shortLen = .err (.InvalidGguf message) := by
  rw [readMetadataWithLen_eq] at h
  obtain ⟨⟨header, cursor⟩, hread, hplace⟩ := Outcome.bind_eq_ok.mp h
  obtain ⟨taken, hbytes, hpos, htakes, hstarves⟩ := built_readHeader.streams hread
  dsimp only at hbytes hpos hplace
  rw [UInt64.toNat_zero, Nat.zero_add] at hpos
  have hlt : (0 : UInt64).toNat + taken.length < 2 ^ 64 := by
    rw [UInt64.toNat_zero, Nat.zero_add, ← hpos]
    exact cursor.pos.toNat_lt
  have hend : (0 : UInt64) + .ofNat taken.length = cursor.pos := by
    rw [← UInt64.toNat_inj, toNat_advance hlt, UInt64.toNat_zero, Nat.zero_add, hpos]
  refine ⟨taken.length, ?_, ?_, ?_, ?_⟩
  · rw [hbytes, List.length_append]
    exact Nat.le_add_right _ _
  · obtain ⟨dataStartOffset, halign, hrest⟩ := Outcome.bind_eq_ok.mp hplace
    have hstart := alignTo_eq_ok (readHeader_alignment hread) halign
    split at hrest
    · cases hrest
    · obtain ⟨tensors, -, hfile⟩ := Outcome.bind_eq_ok.mp hrest
      obtain rfl := Outcome.ok.inj hfile
      rw [hstart, hpos]
  · intro n hn
    rw [readMetadataWithLen_eq, hbytes, List.take_append, List.take_of_length_le hn, htakes _ 0 hlt,
      Outcome.ok_bind, hend]
    exact hplace
  · intro n hn shortLen
    have hshort : bytes.take n = taken.take n := by
      rw [hbytes, List.take_append_of_le_length (Nat.le_of_lt hn)]
    obtain ⟨message, herr⟩ := hstarves (bytes.take n) 0 (hshort ▸ List.take_prefix n taken)
      (by
        intro heq
        have := congrArg List.length heq
        rw [hshort, List.length_take_of_le (Nat.le_of_lt hn)] at this
        exact absurd this (Nat.ne_of_lt hn)) hlt
    refine ⟨message, ?_⟩
    rw [readMetadataWithLen_eq, herr, Outcome.err_bind]

/-- **Exactness.** The serialization of a well-formed header parses to what was
serialized, whatever follows it. A file that was accepted parses the same from
every prefix that holds its header, and every shorter one is refused as invalid,
whatever length is declared for it. -/
theorem parse_exact :
    (∀ (document : Document) (declaredLen : UInt64) (data : List UInt8),
      document.WellFormed declaredLen →
      ∃ file, readMetadataWithLen (document.bytes ++ data) declaredLen = .ok file ∧
        document.ReadAs file) ∧
    ∀ (bytes : List UInt8) (declaredLen : UInt64) (file : GgufFile),
      readMetadataWithLen bytes declaredLen = .ok file →
      ∃ headerLen ≤ bytes.length,
        file.dataStartOffset.toNat = alignUp headerLen file.alignment.toNat ∧
        (∀ n, headerLen ≤ n → readMetadataWithLen (bytes.take n) declaredLen = .ok file) ∧
        ∀ n < headerLen, ∀ shortLen, ∃ message,
          readMetadataWithLen (bytes.take n) shortLen = .err (.InvalidGguf message) :=
  ⟨fun _ _ data h => Document.parse_bytes h data, fun _ _ _ h => prefix_of_ok h⟩

/-- Two entries, one of them an array, and two tensors laid out with alignment 8. -/
def twoTensorDocument : Document where
  version := 3
  metadata := [⟨"general.alignment".toList, .U32 8, 0⟩, ⟨['k'], .Array [.Bool true, .Bool false], 7⟩]
  alignment := 8
  tensors := [⟨['a'], [3], .F32, 0, 152, 12⟩, ⟨['b'], [2], .F16, 16, 168, 4⟩]

/-- One dimension is counted out in one step. -/
theorem counted_single (dim : UInt64) (rank : Nat) : elements ([dim].take rank) < 2 ^ 64 := by
  have hdim := dim.toNat_lt
  rcases rank with _ | rank
  · rw [List.take_zero]
    decide
  · simpa [elements] using hdim

theorem twoTensorDocument_wellFormed : twoTensorDocument.WellFormed 172 where
  version := .inr rfl
  tensorCount := by decide
  metadataCount := by decide
  entries := by
    intro entry hentry
    simp only [twoTensorDocument, List.mem_cons, List.not_mem_nil, or_false] at hentry
    rcases hentry with rfl | rfl
    · exact ⟨by decide +kernel, trivial⟩
    · refine ⟨by decide +kernel, by decide, by decide, ?_⟩
      intro value hvalue
      simp only [List.mem_cons, List.not_mem_nil, or_false] at hvalue
      rcases hvalue with rfl | rfl <;> exact ⟨trivial, rfl⟩
  keys := by decide +kernel
  alignmentPow := ⟨3, rfl⟩
  alignmentDeclared := .inl ⟨_, List.mem_cons_self, rfl, .inr ⟨8, rfl, rfl⟩⟩
  tensors := by
    intro tensor htensor
    simp only [twoTensorDocument, List.mem_cons, List.not_mem_nil, or_false] at htensor
    rcases htensor with rfl | rfl
    · exact ⟨by decide +kernel, by decide, by simp, counted_single _, 1, 4, rfl,
        by decide, by decide⟩
    · exact ⟨by decide +kernel, by decide, by simp, counted_single _, 1, 2, rfl,
        by decide, by decide⟩
  names := by decide
  dataStart := by decide +kernel
  laidOut := by
    have hstart : twoTensorDocument.dataStart = 152 := by decide +kernel
    rw [hstart]
    exact ⟨rfl, rfl, by decide, by decide, rfl, rfl, by decide, by decide, trivial⟩

theorem parse_exact_twoTensor :
    ∃ file, readMetadataWithLen (twoTensorDocument.bytes ++ [1, 2, 3]) 172 = .ok file ∧
      twoTensorDocument.ReadAs file ∧
      ∃ headerLen ≤ (twoTensorDocument.bytes ++ [1, 2, 3]).length,
        ∀ n < headerLen, ∃ message,
          readMetadataWithLen ((twoTensorDocument.bytes ++ [1, 2, 3]).take n) 172 =
            .err (.InvalidGguf message) := by
  obtain ⟨file, hparse, hread⟩ := parse_exact.1 _ _ [1, 2, 3] twoTensorDocument_wellFormed
  obtain ⟨headerLen, hle, -, -, hshort⟩ := parse_exact.2 _ _ _ hparse
  exact ⟨file, hparse, hread, headerLen, hle, fun n hn => hshort n hn 172⟩

end CamelidEnterprise.Gguf

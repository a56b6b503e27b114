import Mathlib.Data.List.AList
import CamelidEnterprise.Foundation.Binary
import CamelidEnterprise.Foundation.Utf8
import CamelidEnterprise.Foundation.Word
import CamelidEnterprise.Engine.Error

/-!
# Camelid Enterprise — the GGUF container parser

`crates/engine-core/src/gguf.rs`: the little-endian header of a model file, its
metadata block, its tensor descriptors, and the placement of every tensor in the
data region. The parser reads a byte string through a `Cursor`; the file's path
and the I/O errors of its device are not modelled.

Arithmetic is on 64-bit words. The `checked_*` operations of the source are
`Word.checked*`; the one plain operator the parser uses (`alignment - 1`) is
`Word.plainSub`, which faults where the word would wrap.
-/

namespace CamelidEnterprise.Gguf

open Foundation Foundation.Word

/-- `GGUF_MAGIC` -/
def ggufMagic : List UInt8 := [0x47, 0x47, 0x55, 0x46]

/-- `DEFAULT_ALIGNMENT` -/
def defaultAlignment : UInt64 := 32

/-- `MAX_TENSOR_DIMS` -/
def maxTensorDims : UInt32 := 4

/-- `MAX_TENSOR_NAME` -/
def maxTensorName : Nat := 64

/-- `MAX_STRING_BYTES` -/
def maxStringBytes : UInt64 := 16 * 1024 * 1024

/-- `MAX_ARRAY_LEN` -/
def maxArrayLen : UInt64 := 1000000

/-- A metadata value; floats are kept as their bits. -/
inductive MetadataValue
  | U8 (value : UInt8)
  | I8 (value : Int8)
  | U16 (value : UInt16)
  | I16 (value : Int16)
  | U32 (value : UInt32)
  | I32 (value : Int32)
  | F32 (bits : UInt32)
  | Bool (value : Bool)
  | String (value : Str)
  | Array (values : List MetadataValue)
  | U64 (value : UInt64)
  | I64 (value : Int64)
  | F64 (bits : UInt64)

/-- On-wire tensor element types. -/
inductive TensorType
  | F32 | F16 | Q4_0 | Q4_1 | Q5_0 | Q5_1 | Q8_0 | Q8_1
  | Q2K | Q3K | Q4K | Q5K | Q6K | Q8K | IQ4NL | IQ4XS | Tq1_0 | Tq2_0
  | I8 | I16 | I32 | I64 | F64 | BF16 | NVFP4
  | Unknown (id : Int32)
deriving DecidableEq, Repr

/-- `TensorType::from_id` -/
def TensorType.fromId (value : Int32) : TensorType :=
  match value.toInt with
  | 0 => .F32
  | 1 => .F16
  | 2 => .Q4_0
  | 3 => .Q4_1
  | 6 => .Q5_0
  | 7 => .Q5_1
  | 8 => .Q8_0
  | 9 => .Q8_1
  | 10 => .Q2K
  | 11 => .Q3K
  | 12 => .Q4K
  | 13 => .Q5K
  | 14 => .Q6K
  | 15 => .Q8K
  | 20 => .IQ4NL
  | 23 => .IQ4XS
  | 34 => .Tq1_0
  | 35 => .Tq2_0
  | 24 => .I8
  | 25 => .I16
  | 26 => .I32
  | 27 => .I64
  | 28 => .F64
  | 30 => .BF16
  | 40 => .NVFP4
  | _ => .Unknown value

/-- `TensorType::layout`: elements and bytes of one block. -/
def TensorType.layout : TensorType → Option (UInt64 × UInt64)
  | .F32 => some (1, 4)
  | .F16 => some (1, 2)
  | .Q4_0 => some (32, 18)
  | .Q4_1 => some (32, 20)
  | .Q5_0 | .Q5_1 => some (32, 22)
  | .Q8_0 => some (32, 34)
  | .Q8_1 => some (32, 36)
  | .Q2K => some (256, 84)
  | .Q3K => some (256, 110)
  | .Q4K => some (256, 144)
  | .Q5K => some (256, 176)
  | .Q6K => some (256, 210)
  | .Q8K => some (256, 292)
  | .IQ4NL => some (32, 18)
  | .IQ4XS => some (256, 136)
  | .Tq1_0 => some (256, 54)
  | .Tq2_0 => some (256, 66)
  | .NVFP4 => some (64, 36)
  | .I8 => some (1, 1)
  | .I16 | .BF16 => some (1, 2)
  | .I32 => some (1, 4)
  | .I64 | .F64 => some (1, 8)
  | .Unknown _ => none

theorem TensorType.layout_block_pos {ty : TensorType} {block size : UInt64}
    (h : ty.layout = some (block, size)) : 0 < block.toNat := by
  cases ty <;> simp only [TensorType.layout, Option.some.injEq, Prod.mk.injEq, reduceCtorEq] at h <;>
    obtain ⟨rfl, -⟩ := h <;> decide

/-- One tensor's entry in the descriptor block. -/
structure TensorDescriptor where
  name : Str
  dimensions : List UInt64
  tensorType : TensorType
  relativeOffset : UInt64
  absoluteOffset : UInt64
  nBytes : UInt64
deriving DecidableEq, Repr

/-- The metadata block, a `BTreeMap` read by key only. -/
abbrev Metadata := AList fun _ : Str => MetadataValue

/-- A parsed header: everything before the tensor data. -/
structure GgufFile where
  version : UInt32
  tensorCount : Int64
  metadataCount : Int64
  alignment : UInt64
  dataStartOffset : UInt64
  metadata : Metadata
  tensors : List TensorDescriptor

/-! ## The cursor -/

/-- The bytes still to be read, and how many have been. -/
structure Cursor where
  remaining : List UInt8
  pos : UInt64
deriving DecidableEq, Repr

namespace Cursor

/-- `Cursor::read_bytes` over `read_exact_into` -/
def readBytes (cursor : Cursor) (n : Nat) : EngineResult (List UInt8 × Cursor) :=
  if n ≤ cursor.remaining.length then do
    let pos ← Outcome.okOr (.InvalidGguf "cursor overflow") (checkedAdd cursor.pos (.ofNat n))
    .ok (cursor.remaining.take n, ⟨cursor.remaining.drop n, pos⟩)
  else
    .err (.InvalidGguf "unexpected end of file")

/-- `from_le_bytes`, before it is given a width. -/
def fromLeBytes (bytes : List UInt8) : Nat :=
  bytes.foldr (fun byte acc => byte.toNat + 256 * acc) 0

def readU8 (cursor : Cursor) : EngineResult (UInt8 × Cursor) := do
  let (b, cursor) ← cursor.readBytes 1
  .ok (.ofNat (fromLeBytes b), cursor)

def readI8 (cursor : Cursor) : EngineResult (Int8 × Cursor) := do
  let (v, cursor) ← cursor.readU8
  .ok (v.toInt8, cursor)

def readBool (cursor : Cursor) : EngineResult (Bool × Cursor) := do
  let (v, cursor) ← cursor.readU8
  .ok (v != 0, cursor)

def readU16 (cursor : Cursor) : EngineResult (UInt16 × Cursor) := do
  let (b, cursor) ← cursor.readBytes 2
  .ok (.ofNat (fromLeBytes b), cursor)

def readI16 (cursor : Cursor) : EngineResult (Int16 × Cursor) := do
  let (v, cursor) ← cursor.readU16
  .ok (v.toInt16, cursor)

def readU32 (cursor : Cursor) : EngineResult (UInt32 × Cursor) := do
  let (b, cursor) ← cursor.readBytes 4
  .ok (.ofNat (fromLeBytes b), cursor)

def readI32 (cursor : Cursor) : EngineResult (Int32 × Cursor) := do
  let (v, cursor) ← cursor.readU32
  .ok (v.toInt32, cursor)

def readU64 (cursor : Cursor) : EngineResult (UInt64 × Cursor) := do
  let (b, cursor) ← cursor.readBytes 8
  .ok (.ofNat (fromLeBytes b), cursor)

def readI64 (cursor : Cursor) : EngineResult (Int64 × Cursor) := do
  let (v, cursor) ← cursor.readU64
  .ok (v.toInt64, cursor)

/-- `Cursor::read_string` -/
def readString (cursor : Cursor) : EngineResult (Str × Cursor) := do
  let (len, cursor) ← cursor.readU64
  if len > maxStringBytes then
    .err (.InvalidGguf s!"string too large: {len}")
  else
    let (bytes, cursor) ← cursor.readBytes len.toNat
    let text ← Outcome.okOr (.InvalidGguf "invalid UTF-8 string") (Utf8.fromUtf8 bytes)
    .ok (text, cursor)

end Cursor

/-! ## Metadata values -/

/-- `read_value_of_type` for every type but an array. Arrays do not nest, so this
is also how the elements of one are read. -/
def readScalarOfType (cursor : Cursor) (ty : Int32) : EngineResult (MetadataValue × Cursor) :=
  match ty.toInt with
  | 0 => do let (v, cursor) ← cursor.readU8; .ok (.U8 v, cursor)
  | 1 => do let (v, cursor) ← cursor.readI8; .ok (.I8 v, cursor)
  | 2 => do let (v, cursor) ← cursor.readU16; .ok (.U16 v, cursor)
  | 3 => do let (v, cursor) ← cursor.readI16; .ok (.I16 v, cursor)
  | 4 => do let (v, cursor) ← cursor.readU32; .ok (.U32 v, cursor)
  | 5 => do let (v, cursor) ← cursor.readI32; .ok (.I32 v, cursor)
  | 6 => do let (v, cursor) ← cursor.readU32; .ok (.F32 v, cursor)
  | 7 => do let (v, cursor) ← cursor.readBool; .ok (.Bool v, cursor)
  | 8 => do let (v, cursor) ← cursor.readString; .ok (.String v, cursor)
  | 10 => do let (v, cursor) ← cursor.readU64; .ok (.U64 v, cursor)
  | 11 => do let (v, cursor) ← cursor.readI64; .ok (.I64 v, cursor)
  | 12 => do let (v, cursor) ← cursor.readU64; .ok (.F64 v, cursor)
  | _ => .err (.UnsupportedGguf s!"metadata value type {ty.toInt}")

/-- The `for _ in 0..len` loop over an array's elements. -/
def readElements (ty : Int32) : Nat → Cursor → EngineResult (List MetadataValue × Cursor)
  | 0, cursor => .ok ([], cursor)
  | n + 1, cursor => do
    let (value, cursor) ← readScalarOfType cursor ty
    let (values, cursor) ← readElements ty n cursor
    .ok (value :: values, cursor)

/-- `read_value_of_type` -/
def readValueOfType (cursor : Cursor) (ty : Int32) : EngineResult (MetadataValue × Cursor) :=
  if ty.toInt = 9 then do
    let (elementTy, cursor) ← cursor.readI32
    if elementTy.toInt = 9 then
      .err (.UnsupportedGguf "nested metadata arrays")
    else
      let (len, cursor) ← cursor.readU64
      if len > maxArrayLen then
        .err (.InvalidGguf s!"metadata array too large: {len}")
      else
        let (values, cursor) ← readElements elementTy len.toNat cursor
        .ok (.Array values, cursor)
  else
    readScalarOfType cursor ty

/-- `read_value` -/
def readValue (cursor : Cursor) : EngineResult (MetadataValue × Cursor) := do
  let (ty, cursor) ← cursor.readI32
  readValueOfType cursor ty

/-- The `for _ in 0..metadata_count` loop. -/
def readMetadataEntries : Nat → Cursor → Metadata → EngineResult (Metadata × Cursor)
  | 0, cursor, metadata => .ok (metadata, cursor)
  | n + 1, cursor, metadata => do
    let (key, cursor) ← cursor.readString
    let (value, cursor) ← readValue cursor
    if key ∈ metadata then
      .err (.InvalidGguf s!"duplicate metadata key {display key}")
    else
      readMetadataEntries n cursor (metadata.insert key value)

/-- The alignment the metadata declares, or the default. -/
def declaredAlignment (metadata : Metadata) : EngineResult UInt64 :=
  match metadata.lookup "general.alignment".toList with
  | some (.U32 value) => .ok value.toUInt64
  | some (.U64 value) => .ok value
  | some _ => .err (.InvalidGguf "general.alignment has non-integer type")
  | none => .ok defaultAlignment

/-- The alignment the tensor data is laid out by. -/
def readAlignment (metadata : Metadata) : EngineResult UInt64 := do
  let alignment ← declaredAlignment metadata
  if alignment == 0 || !isPowerOfTwo alignment then
    .err (.InvalidGguf s!"invalid alignment {alignment}")
  else
    .ok alignment

/-! ## Tensor descriptors -/

/-- A descriptor as it stands in the file, before it is placed. -/
structure RawTensor where
  name : Str
  dimensions : List UInt64
  tensorType : TensorType
  relativeOffset : UInt64
deriving DecidableEq, Repr

/-- The `for _ in 0..n_dimensions` loop. -/
def readDimensions (name : Str) : Nat → Cursor → EngineResult (List UInt64 × Cursor)
  | 0, cursor => .ok ([], cursor)
  | n + 1, cursor => do
    let (dim, cursor) ← cursor.readI64
    if dim < 0 then
      .err (.InvalidGguf s!"tensor {display name} has negative dimension {dim.toInt}")
    else
      let (dims, cursor) ← readDimensions name n cursor
      .ok (dim.toUInt64 :: dims, cursor)

/-- One pass of the descriptor loop. -/
def readRawTensor (cursor : Cursor) : EngineResult (RawTensor × Cursor) := do
  let (name, cursor) ← cursor.readString
  if (Utf8.encode name).length ≥ maxTensorName then
    .err (.InvalidGguf
      s!"tensor name {display name} exceeds the {maxTensorName}-byte limit")
  else
    let (nDimensions, cursor) ← cursor.readU32
    if nDimensions == 0 || nDimensions > maxTensorDims then
      .err (.InvalidGguf
        s!"tensor {display name} has invalid dimension count {nDimensions}")
    else
      let (dimensions, cursor) ← readDimensions name nDimensions.toNat cursor
      let (ty, cursor) ← cursor.readI32
      let (relativeOffset, cursor) ← cursor.readU64
      .ok (⟨name, dimensions, TensorType.fromId ty, relativeOffset⟩, cursor)

/-- The `for _ in 0..tensor_count` loop. -/
def readRawTensors : Nat → Cursor → EngineResult (List RawTensor × Cursor)
  | 0, cursor => .ok ([], cursor)
  | n + 1, cursor => do
    let (tensor, cursor) ← readRawTensor cursor
    let (tensors, cursor) ← readRawTensors n cursor
    .ok (tensor :: tensors, cursor)

/-- `{tensor_type:?}` of the only kind of type that has no layout. -/
def TensorType.debugUnknown : TensorType → String
  | .Unknown id => s!"Unknown({id.toInt})"
  | _ => ""

/-- The `for dim in dimensions` loop of `tensor_nbytes`. -/
def elementCount (name : Str) : List UInt64 → UInt64 → EngineResult UInt64
  | [], elements => .ok elements
  | dim :: dims, elements => do
    let elements ← Outcome.okOr
      (.InvalidGguf s!"tensor {display name} element count overflow") (checkedMul elements dim)
    elementCount name dims elements

/-- `tensor_nbytes` -/
def tensorNbytes (name : Str) (dimensions : List UInt64) (tensorType : TensorType) :
    EngineResult UInt64 := do
  let (blockSize, typeSize) ← Outcome.okOr
    (.UnsupportedGguf
      s!"tensor {display name} has unknown wire type {tensorType.debugUnknown}")
    tensorType.layout
  let firstDim := dimensions.head?.getD 1
  if firstDim % blockSize ≠ 0 then
    .err (.InvalidGguf
      s!"tensor {display name} first dimension {firstDim} is not divisible by block size {blockSize}")
  else
    let elements ← elementCount name dimensions 1
    Outcome.okOr (.InvalidGguf s!"tensor {display name} byte size overflow")
      ((checkedDiv elements blockSize).bind fun blocks => checkedMul blocks typeSize)

/-- `align_to` -/
def alignTo (value alignment : UInt64) : EngineResult UInt64 := do
  let add ← plainSub alignment 1
  Outcome.okOr (.InvalidGguf "alignment overflow")
    ((checkedAdd value add).map fun v => v &&& ~~~add)

/-- The placement loop: each tensor starts where the aligned span of the one
before it ended. `seenNames` and `expectedOffset` are the loop's own variables. -/
def placeTensors (alignment dataStartOffset declaredLen : UInt64) :
    List RawTensor → List Str → UInt64 → EngineResult (List TensorDescriptor)
  | [], _, _ => .ok []
  | raw :: raws, seenNames, expectedOffset =>
    if raw.name ∈ seenNames then
      .err (.InvalidGguf s!"duplicate tensor name {display raw.name}")
    else if raw.relativeOffset ≠ expectedOffset then
      .err (.InvalidGguf
        s!"tensor {display raw.name} offset {raw.relativeOffset} is not contiguous; expected {expectedOffset}")
    else do
      let nBytes ← tensorNbytes raw.name raw.dimensions raw.tensorType
      let absoluteOffset ← Outcome.okOr
        (.InvalidGguf s!"tensor {display raw.name} absolute offset overflow")
        (checkedAdd dataStartOffset raw.relativeOffset)
      let finish ← Outcome.okOr
        (.InvalidGguf s!"tensor {display raw.name} byte range overflow")
        (checkedAdd absoluteOffset nBytes)
      if finish > declaredLen then
        .err (.InvalidGguf s!"tensor {display raw.name} data extends beyond end of file")
      else
        let span ← Outcome.okOr (.InvalidGguf "tensor offset overflow")
          (checkedAdd raw.relativeOffset nBytes)
        let next ← alignTo span alignment
        let tensors ← placeTensors alignment dataStartOffset declaredLen raws
          (raw.name :: seenNames) next
        .ok (⟨raw.name, raw.dimensions, raw.tensorType, raw.relativeOffset, absoluteOffset,
          nBytes⟩ :: tensors)

/-- `read_metadata_with_len`, on the file's bytes. -/
def readMetadataWithLen (bytes : List UInt8) (declaredLen : UInt64) : EngineResult GgufFile := do
  let (magic, cursor) ← Cursor.readBytes ⟨bytes, 0⟩ 4
  if magic ≠ ggufMagic then
    .err (.InvalidGguf "bad magic; expected GGUF")
  else
    let (version, cursor) ← cursor.readU32
    if version < 2 || 3 < version then
      .err (.UnsupportedGguf s!"version {version}; expected v2 or v3")
    else
      let (tensorCount, cursor) ← cursor.readI64
      let (metadataCount, cursor) ← cursor.readI64
      if tensorCount < 0 || metadataCount < 0 then
        .err (.InvalidGguf "negative tensor or metadata count")
      else
        let (metadata, cursor) ← readMetadataEntries metadataCount.toInt.toNat cursor ∅
        let alignment ← readAlignment metadata
        let (rawTensors, cursor) ← readRawTensors tensorCount.toInt.toNat cursor
        let dataStartOffset ← alignTo cursor.pos alignment
        if dataStartOffset > declaredLen then
          .err (.InvalidGguf "aligned tensor data start is beyond end of file")
        else
          let tensors ← placeTensors alignment dataStartOffset declaredLen rawTensors [] 0
          .ok ⟨version, tensorCount, metadataCount, alignment, dataStartOffset, metadata, tensors⟩

/-! ## Typed access to the metadata -/

namespace GgufFile

/-- `metadata_string` -/
def metadataString (file : GgufFile) (key : String) : Option Str :=
  match file.metadata.lookup key.toList with
  | some (.String value) => some value
  | _ => none

/-- `metadata_bool` -/
def metadataBool (file : GgufFile) (key : String) : Option Bool :=
  match file.metadata.lookup key.toList with
  | some (.Bool value) => some value
  | _ => none

/-- `metadata_u32` -/
def metadataU32 (file : GgufFile) (key : String) : Option Nat :=
  match file.metadata.lookup key.toList with
  | some (.U32 value) => some value.toNat
  | some (.U64 value) => if value.toNat < 2 ^ 32 then some value.toNat else none
  | _ => none

/-- `metadata_f32` -/
def metadataF32 (file : GgufFile) (key : String) : Option UInt32 :=
  match file.metadata.lookup key.toList with
  | some (.F32 bits) => some bits
  | some (.F64 bits) => some (.ofNat (Format.double.convert .single bits.toNat))
  | _ => none

/-- `architecture` -/
def architecture (file : GgufFile) : Option Str := file.metadataString "general.architecture"

/-- `typed_array_optional` -/
def typedArrayOptional {α : Type} (file : GgufFile) (key expected : String)
    (extract : MetadataValue → Option α) : EngineResult (Option (List α)) :=
  match file.metadata.lookup key.toList with
  | none => .ok none
  | some (.Array values) => do
    let extracted ← Outcome.okOr (.InvalidGguf s!"metadata {key} must be {expected}")
      (values.mapM extract)
    .ok (some extracted)
  | some _ => .err (.InvalidGguf s!"metadata {key} must be {expected}")

/-- `metadata_array_strings_optional` -/
def metadataArrayStringsOptional (file : GgufFile) (key : String) :
    EngineResult (Option (List Str)) :=
  file.typedArrayOptional key "array<string>" fun
    | .String value => some value
    | _ => none

/-- `metadata_array_strings` -/
def metadataArrayStrings (file : GgufFile) (key : String) : EngineResult (List Str) := do
  let values ← file.metadataArrayStringsOptional key
  Outcome.okOr (.InvalidGguf s!"required metadata {key} is missing") values

/-- `metadata_array_f32_optional`; floats as bits. -/
def metadataArrayF32Optional (file : GgufFile) (key : String) :
    EngineResult (Option (List UInt32)) :=
  file.typedArrayOptional key "array<float>" fun
    | .F32 bits => some bits
    | _ => none

/-- `metadata_array_i32_optional` -/
def metadataArrayI32Optional (file : GgufFile) (key : String) :
    EngineResult (Option (List Int)) :=
  file.typedArrayOptional key "array<int>" fun
    | .I32 value => some value.toInt
    | .U32 value => if value.toNat < 2 ^ 31 then some value.toNat else none
    | _ => none

end GgufFile

end CamelidEnterprise.Gguf

import CamelidEnterprise.Foundation.Rows

/-!
# A file behind a path

A program that names a file by its path and reads it in pieces, on a disk that others write at any
time: files are made, rewritten in place, and put behind the path or taken from it. A file that is
open is read where it is, whatever the path names by then.

* `Chunk` — what one read of an open file may return;
* `Undisturbed` — nobody writes a file or puts it behind the path again;
* `Reading` — bytes read one chunk after the other are those of the file, as long as it is not
  written (`Reading.chunk`, `Reading.whole`).
-/

namespace Foundation

/-- A file: the number the system tells it by, and its bytes. -/
structure File where
  number : Nat
  bytes : List UInt8
deriving DecidableEq

/-- The files, in the order they were made, and the one behind the path. -/
structure Disk where
  files : List File
  named : Option Nat
deriving DecidableEq

/-- What others do to a disk. -/
inductive DiskAction
  | create (file : File)
  /-- a write in place -/
  | write (id : Nat) (bytes : List UInt8)
  /-- the path is renamed over, linked or unlinked -/
  | name (id : Option Nat)

namespace Disk

/-- The disk behind an action. -/
def act (disk : Disk) : DiskAction → Disk
  | .create file => { disk with files := disk.files ++ [file] }
  | .write id bytes => { disk with files := disk.files.modify id fun file => { file with bytes } }
  | .name id => { disk with named := id }

/-- What one read of an open file may return: bytes that are there, and nothing only where nothing
is asked for or the file ends. -/
def Chunk (disk : Disk) (handle offset limit : Nat) (chunk : List UInt8) : Prop :=
  ∃ file, disk.files[handle]? = some file ∧ chunk <+: (file.bytes.drop offset).take limit ∧
    (chunk = [] → limit = 0 ∨ file.bytes.length ≤ offset)

/-- A read may return all that it asks for. -/
theorem chunk_full {disk : Disk} {handle : Nat} {file : File}
    (hfile : disk.files[handle]? = some file) (offset limit : Nat) :
    disk.Chunk handle offset limit ((file.bytes.drop offset).take limit) := by
  refine ⟨file, hfile, List.prefix_rfl, fun hnothing => ?_⟩
  rcases List.take_eq_nil_iff.mp hnothing with hlimit | hdrop
  · exact .inl hlimit
  · exact .inr (List.drop_eq_nil_iff.mp hdrop)

end Disk

/-- Nobody writes the file, or puts it behind the path. -/
def DiskAction.Undisturbed (id : Nat) : DiskAction → Prop
  | .create _ => True
  | .write other _ => other ≠ id
  | .name other => other ≠ some id

section Undisturbed

variable {disk : Disk} {action : DiskAction} {id : Nat}

theorem DiskAction.Undisturbed.file (h : action.Undisturbed id) {file : File}
    (hfile : disk.files[id]? = some file) : (disk.act action).files[id]? = some file := by
  cases action with
  | create other =>
    exact (List.getElem?_append_left (List.getElem?_eq_some_iff.mp hfile).1).trans hfile
  | write other bytes =>
    show (disk.files.modify other _)[id]? = some file
    rw [List.getElem?_modify, hfile]
    show some (if other = id then _ else file) = some file
    rw [if_neg (show other ≠ id from h)]
  | name other => exact hfile

theorem DiskAction.Undisturbed.named (h : action.Undisturbed id)
    (hnamed : (disk.act action).named = some id) : disk.named = some id := by
  cases action with
  | create other => exact hnamed
  | write other bytes => exact hnamed
  | name other => exact absurd hnamed h

end Undisturbed

/-- Bytes read further from where they end. -/
theorem prefix_append_of_drop {bytes next content : List UInt8} (h : bytes <+: content)
    (hnext : next <+: content.drop bytes.length) : bytes ++ next <+: content := by
  obtain ⟨rest, rfl⟩ := h
  rw [List.drop_left] at hnext
  exact (List.prefix_append_right_inj bytes).mpr hnext

/-- Bytes that stand in a file from a place on, within a length. -/
def Reading (content : List UInt8) (offset limit : Nat) (bytes : List UInt8) : Prop :=
  bytes <+: (content.drop offset).take limit

section Reading

variable {disk : Disk} {handle : Nat} {file : File} {content bytes next : List UInt8}
  {offset limit : Nat}

theorem Reading.nil : Reading content offset limit [] := List.nil_prefix

/-- The next chunk, out of the rest of the length. -/
theorem Reading.chunk (h : Reading file.bytes offset limit bytes)
    (hfile : disk.files[handle]? = some file)
    (hchunk : disk.Chunk handle (offset + bytes.length) (limit - bytes.length) next) :
    Reading file.bytes offset limit (bytes ++ next) := by
  obtain ⟨file', hfile', hnext, -⟩ := hchunk
  obtain rfl := Option.some.inj (hfile.symm.trans hfile')
  refine prefix_append_of_drop h ?_
  rw [List.drop_take, List.drop_drop]
  exact hnext

/-- A file read from its front, a chunk further. -/
theorem prefix_chunk (h : bytes <+: file.bytes) (hfile : disk.files[handle]? = some file)
    (hchunk : disk.Chunk handle bytes.length limit next) : bytes ++ next <+: file.bytes := by
  obtain ⟨file', hfile', hnext, -⟩ := hchunk
  obtain rfl := Option.some.inj (hfile.symm.trans hfile')
  exact prefix_append_of_drop h (hnext.trans (List.take_prefix _ _))

/-- A file read from its front, to where a read returns nothing. -/
theorem whole_of_end (h : bytes <+: file.bytes) (hfile : disk.files[handle]? = some file)
    (hlimit : limit ≠ 0) (hend : disk.Chunk handle bytes.length limit []) :
    bytes = file.bytes := by
  obtain ⟨file', hfile', -, hnothing⟩ := hend
  obtain rfl := Option.some.inj (hfile.symm.trans hfile')
  exact h.eq_of_length_le ((hnothing rfl).resolve_left hlimit)

/-- What was read to the end of its length is that part of the file. -/
theorem Reading.whole (h : Reading content offset limit bytes) (hlength : bytes.length = limit)
    (hfits : offset + limit ≤ content.length) : Rows.slice content offset limit = some bytes := by
  rw [Rows.slice_of_le hfits, h.eq_of_length_le]
  rw [hlength]
  exact List.length_take_le limit _

end Reading

end Foundation

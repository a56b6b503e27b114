import CamelidEnterprise.Engine.ForwardSafe
import CamelidEnterprise.Engine.LoadCalls
import CamelidEnterprise.Foundation.FileSystem
import CamelidEnterprise.Foundation.Machine
import CamelidEnterprise.Server.Attribution

/-!
# Camelid Enterprise — which weights a replica serves

`serve` of `crates/server/src/main.rs` digests the model (`ModelIdentity::of_file` of
`attribution.rs`), loads it by its path (`LoadedModel::load_with_q8_projection` of the engine,
which opens the path again for the header and for every tensor), and serves it once
`replica_router` found behind the path what was digested (`verify_unchanged`). Others may write the
disk between any two of these accesses.

* `startup_identity` — a replica that comes up serves the model in the bytes it publishes the
  digest of, if nobody writes that file or puts it behind the path again, and no other file passes
  for it;
* `startup_ready` — it comes up from every file that loads, on a disk left alone;
* `rewritten_in_place`, `renamed_and_back`, `number_reused` — without one of the three, it may
  serve any model under any digest.
-/

namespace CamelidEnterprise.Server

open Foundation
open Gguf

-- ---------------------------------------------------------------------------
-- The replica
-- ---------------------------------------------------------------------------

/-- `FileFingerprint`; the number stands for device and inode, and is the same for all files
where the platform tells neither. -/
structure FileFingerprint where
  len : Nat
  number : Nat
deriving DecidableEq

/-- `FileFingerprint::of` -/
def FileFingerprint.of (file : File) : FileFingerprint := ⟨file.bytes.length, file.number⟩

/-- `ModelIdentity` -/
structure ModelIdentity where
  sha256 : Digest
  fingerprint : FileFingerprint

/-- `DIGEST_CHUNK` -/
def digestChunk : Nat := 1024 * 1024

section Model

variable [FloatOps]

/-- How far a replica is that starts. -/
inductive StartupPhase
  | starting
  /-- `of_file`: the open file -/
  | opened (handle : Nat)
  /-- the open file, what it was, and the bytes that are in the hasher -/
  | digesting (handle : Nat) (fingerprint : FileFingerprint) (hashed : List UInt8)
  | identified (identity : ModelIdentity)
  /-- `read_metadata`: the length of the file -/
  | measured (identity : ModelIdentity) (fileLen : Nat)
  /-- the header, as far as it was read -/
  | header (identity : ModelIdentity) (fileLen handle : Nat) (bytes : List UInt8)
  /-- the tensors that were read -/
  | loading (identity : ModelIdentity) (gguf : GgufFile) (calls : List TensorCall)
  /-- `tensor_bytes`: a tensor, as far as it was read -/
  | tensor (identity : ModelIdentity) (gguf : GgufFile) (calls : List TensorCall)
      (desc : TensorDescriptor) (handle : Nat) (bytes : List UInt8)
  | loaded (identity : ModelIdentity) (model : LoadedDense)
  | ready (identity : ModelIdentity) (model : LoadedDense)
  | refused

/-- A disk and a replica that starts. -/
structure Startup where
  disk : Disk
  phase : StartupPhase

/-- What can happen next. -/
inductive StartupAction
  | disk (action : DiskAction)
  /-- `of_file` opens the model -/
  | identify
  | stat
  | digest (chunk : List UInt8)
  | measure
  | openHeader
  | header (chunk : List UInt8)
  | parse
  | openTensor (name : Str)
  | tensor (chunk : List UInt8)
  | close
  | load
  /-- `verify_unchanged` -/
  | verify
  | refuse

variable (sha256 : List UInt8 → Digest) (path : String) (projection : Q8Projection)

/-- The steps of a start. -/
inductive StartupStep : Startup → StartupAction → Unit → Startup → Prop
  | disk {s : Startup} {action : DiskAction} :
      StartupStep s (.disk action) () { s with disk := s.disk.act action }
  | identify {disk : Disk} {id : Nat} {file : File} (hnamed : disk.named = some id)
      (hfile : disk.files[id]? = some file) :
      StartupStep ⟨disk, .starting⟩ .identify () ⟨disk, .opened id⟩
  | stat {disk : Disk} {handle : Nat} {file : File} (hfile : disk.files[handle]? = some file) :
      StartupStep ⟨disk, .opened handle⟩ .stat () ⟨disk, .digesting handle (.of file) []⟩
  | digest {disk : Disk} {handle : Nat} {fingerprint : FileFingerprint} {hashed chunk : List UInt8}
      (hchunk : disk.Chunk handle hashed.length digestChunk chunk) (hne : chunk ≠ []) :
      StartupStep ⟨disk, .digesting handle fingerprint hashed⟩ (.digest chunk) ()
        ⟨disk, .digesting handle fingerprint (hashed ++ chunk)⟩
  | digested {disk : Disk} {handle : Nat} {fingerprint : FileFingerprint} {hashed : List UInt8}
      (hend : disk.Chunk handle hashed.length digestChunk []) :
      StartupStep ⟨disk, .digesting handle fingerprint hashed⟩ (.digest []) ()
        ⟨disk, .identified ⟨sha256 hashed, fingerprint⟩⟩
  | measure {disk : Disk} {identity : ModelIdentity} {id : Nat} {file : File}
      (hnamed : disk.named = some id) (hfile : disk.files[id]? = some file) :
      StartupStep ⟨disk, .identified identity⟩ .measure ()
        ⟨disk, .measured identity file.bytes.length⟩
  | openHeader {disk : Disk} {identity : ModelIdentity} {fileLen id : Nat} {file : File}
      (hnamed : disk.named = some id) (hfile : disk.files[id]? = some file) :
      StartupStep ⟨disk, .measured identity fileLen⟩ .openHeader ()
        ⟨disk, .header identity fileLen id []⟩
  | header {disk : Disk} {identity : ModelIdentity} {fileLen handle limit : Nat}
      {bytes chunk : List UInt8} (hchunk : disk.Chunk handle bytes.length limit chunk) :
      StartupStep ⟨disk, .header identity fileLen handle bytes⟩ (.header chunk) ()
        ⟨disk, .header identity fileLen handle (bytes ++ chunk)⟩
  | parse {disk : Disk} {identity : ModelIdentity} {fileLen handle : Nat} {bytes : List UInt8}
      {gguf : GgufFile} (hparse : readMetadataWithLen bytes (.ofNat fileLen) = .ok gguf) :
      StartupStep ⟨disk, .header identity fileLen handle bytes⟩ .parse ()
        ⟨disk, .loading identity gguf []⟩
  | openTensor {disk : Disk} {identity : ModelIdentity} {gguf : GgufFile} {calls : List TensorCall}
      {name : Str} {desc : TensorDescriptor} {id : Nat} {file : File}
      (hdesc : (TensorStore.ofHeader path [] gguf).descriptor name = .ok desc)
      (hnamed : disk.named = some id) (hfile : disk.files[id]? = some file) :
      StartupStep ⟨disk, .loading identity gguf calls⟩ (.openTensor name) ()
        ⟨disk, .tensor identity gguf calls desc id []⟩
  | tensor {disk : Disk} {identity : ModelIdentity} {gguf : GgufFile} {calls : List TensorCall}
      {desc : TensorDescriptor} {handle : Nat} {bytes chunk : List UInt8}
      (hchunk : disk.Chunk handle (desc.absoluteOffset.toNat + bytes.length)
        (desc.nBytes.toNat - bytes.length) chunk) :
      StartupStep ⟨disk, .tensor identity gguf calls desc handle bytes⟩ (.tensor chunk) ()
        ⟨disk, .tensor identity gguf calls desc handle (bytes ++ chunk)⟩
  | close {disk : Disk} {identity : ModelIdentity} {gguf : GgufFile} {calls : List TensorCall}
      {desc : TensorDescriptor} {handle : Nat} {bytes : List UInt8}
      (hlength : bytes.length = desc.nBytes.toNat) :
      StartupStep ⟨disk, .tensor identity gguf calls desc handle bytes⟩ .close ()
        ⟨disk, .loading identity gguf (calls ++ [(desc.name, bytes)])⟩
  | load {disk : Disk} {identity : ModelIdentity} {gguf : GgufFile} {calls : List TensorCall}
      {model : LoadedDense}
      (hload : LoadsBy gguf.tensors (LoadedDense.build gguf projection) calls model) :
      StartupStep ⟨disk, .loading identity gguf calls⟩ .load () ⟨disk, .loaded identity model⟩
  | verify {disk : Disk} {identity : ModelIdentity} {model : LoadedDense} {id : Nat} {file : File}
      (hnamed : disk.named = some id) (hfile : disk.files[id]? = some file)
      (hsame : FileFingerprint.of file = identity.fingerprint) :
      StartupStep ⟨disk, .loaded identity model⟩ .verify () ⟨disk, .ready identity model⟩
  | refuse {disk : Disk} {phase : StartupPhase}
      (hstarts : ∀ identity model, phase ≠ .ready identity model) :
      StartupStep ⟨disk, phase⟩ .refuse () ⟨disk, .refused⟩

/-- Any disk, and a replica that is started. -/
def startup : Machine Startup StartupAction Unit where
  start s := s.phase = .starting
  step := StartupStep sha256 path projection

end Model

-- ---------------------------------------------------------------------------
-- A disk that is left alone
-- ---------------------------------------------------------------------------

section Ready

variable [FloatOps] (sha256 : List UInt8 → Digest) (path : String)
  (projection : Q8Projection)

/-- With nobody at the disk, a replica comes from one phase to another. -/
def ComesTo (disk : Disk) (phase phase' : StartupPhase) : Prop :=
  ∀ h, (startup sha256 path projection).Run h ⟨disk, phase⟩ →
    ∃ more, (startup sha256 path projection).Run (h ++ more) ⟨disk, phase'⟩ ∧
      ∀ e ∈ more, e.before.disk = disk ∧ ∀ action, e.action ≠ .disk action

variable {sha256 path projection} {disk : Disk} {phase phase' phase'' : StartupPhase}

theorem ComesTo.refl : ComesTo sha256 path projection disk phase phase := fun h run =>
  ⟨[], (List.append_nil h).symm ▸ run, fun _ he => absurd he List.not_mem_nil⟩

theorem ComesTo.step {action : StartupAction}
    (hstep : StartupStep sha256 path projection ⟨disk, phase⟩ action () ⟨disk, phase'⟩)
    (haction : ∀ write, action ≠ .disk write) :
    ComesTo sha256 path projection disk phase phase' := by
  intro h run
  refine ⟨[⟨⟨disk, phase⟩, action, (), ⟨disk, phase'⟩⟩], run.snoc hstep, fun e he => ?_⟩
  rw [List.mem_singleton.mp he]
  exact ⟨rfl, haction⟩

theorem ComesTo.trans (h : ComesTo sha256 path projection disk phase phase')
    (h' : ComesTo sha256 path projection disk phase' phase'') :
    ComesTo sha256 path projection disk phase phase'' := by
  intro front run
  obtain ⟨more, run, hmore⟩ := h front run
  obtain ⟨more', run, hmore'⟩ := h' _ run
  rw [List.append_assoc] at run
  refine ⟨more ++ more', run, fun e he => ?_⟩
  rcases List.mem_append.mp he with he | he
  · exact hmore e he
  · exact hmore' e he

variable {id : Nat} (file : File)

/-- The digest reads on, a chunk at a time, until the file ends. -/
theorem comesTo_digested (hfile : disk.files[id]? = some file) {fingerprint : FileFingerprint}
    {hashed : List UInt8} (hread : hashed <+: file.bytes) :
    ComesTo sha256 path projection disk (.digesting id fingerprint hashed)
      (.identified ⟨sha256 file.bytes, fingerprint⟩) := by
  have hchunk := Disk.chunk_full hfile hashed.length digestChunk
  by_cases hne : (file.bytes.drop hashed.length).take digestChunk = []
  · rw [hne] at hchunk
    obtain rfl := whole_of_end hread hfile (by decide) hchunk
    exact .step (.digested hchunk) nofun
  · have hnext := prefix_chunk hread hfile hchunk
    have hpos := List.length_pos_of_ne_nil hne
    have hle := hnext.length_le
    exact (ComesTo.step (.digest hchunk hne) nofun).trans (comesTo_digested hfile hnext)
termination_by file.bytes.length - hashed.length
decreasing_by
  simp only [List.length_append] at hle ⊢
  omega

/-- `of_file` -/
theorem comesTo_identified (hnamed : disk.named = some id) (hfile : disk.files[id]? = some file) :
    ComesTo sha256 path projection disk .starting
      (.identified ⟨sha256 file.bytes, .of file⟩) := by
  have hopened : ComesTo sha256 path projection disk .starting (.opened id) :=
    .step (.identify hnamed hfile) nofun
  exact (hopened.trans (.step (.stat hfile) nofun)).trans
    (comesTo_digested file hfile List.nil_prefix)

/-- `read_metadata` -/
theorem comesTo_parsed (hnamed : disk.named = some id) (hfile : disk.files[id]? = some file)
    {gguf : GgufFile}
    (hparse : readMetadataWithLen file.bytes (.ofNat file.bytes.length) = .ok gguf)
    (identity : ModelIdentity) :
    ComesTo sha256 path projection disk (.identified identity) (.loading identity gguf []) := by
  have hchunk := Disk.chunk_full hfile 0 file.bytes.length
  rw [List.drop_zero, List.take_length] at hchunk
  have hmeasured : ComesTo sha256 path projection disk (.identified identity)
      (.measured identity file.bytes.length) := .step (.measure hnamed hfile) nofun
  have hopened := hmeasured.trans (.step (.openHeader hnamed hfile) nofun)
  have hheader := hopened.trans (.step (.header hchunk) nofun)
  exact hheader.trans (.step (.parse hparse) nofun)

/-- `tensor_bytes`, for one tensor after the other. -/
theorem comesTo_read (hnamed : disk.named = some id) (hfile : disk.files[id]? = some file)
    {gguf : GgufFile} (identity : ModelIdentity) {calls : List TensorCall}
    (hcalls : ∀ call ∈ calls,
      (TensorStore.ofHeader path file.bytes gguf).tensorBytes call.1 = .ok call.2)
    (before : List TensorCall) :
    ComesTo sha256 path projection disk (.loading identity gguf before)
      (.loading identity gguf (before ++ calls)) := by
  induction calls generalizing before with
  | nil =>
    rw [List.append_nil]
    exact .refl
  | cons call calls ih =>
    obtain ⟨name, bytes⟩ := call
    obtain ⟨desc, hdesc, hslice⟩ := Outcome.bind_eq_ok.mp (hcalls (name, bytes) List.mem_cons_self)
    obtain ⟨-, rfl⟩ := TensorStore.descriptor_eq_ok hdesc
    have hslice := Outcome.okOr_eq_ok.mp hslice
    obtain ⟨hfits, hlength, -⟩ := Rows.slice_eq_some.mp hslice
    have hchunk := Disk.chunk_full hfile desc.absoluteOffset.toNat desc.nBytes.toNat
    have hbytes : (file.bytes.drop desc.absoluteOffset.toNat).take desc.nBytes.toNat = bytes :=
      Option.some.inj ((Rows.slice_of_le hfits).symm.trans hslice)
    rw [hbytes] at hchunk
    have hopened : ComesTo sha256 path projection disk (.loading identity gguf before)
        (.tensor identity gguf before desc id []) :=
      .step (.openTensor hdesc hnamed hfile) nofun
    have hread := hopened.trans (.step (.tensor hchunk) nofun)
    have hclosed := hread.trans (.step (.close hlength) nofun)
    have hrest := ih (fun call hcall => hcalls call (List.mem_cons_of_mem _ hcall))
      (before ++ [(desc.name, bytes)])
    rw [List.append_assoc] at hrest
    exact hclosed.trans hrest

/-- `load_with_q8_projection` -/
theorem comesTo_loaded (hnamed : disk.named = some id) (hfile : disk.files[id]? = some file)
    {model : LoadedDense} (hload : LoadedDense.load path file.bytes projection = .ok model)
    (identity : ModelIdentity) :
    ComesTo sha256 path projection disk (.identified identity) (.loaded identity model) := by
  rw [LoadedDense.load_eq] at hload
  obtain ⟨gguf, hparse, hbuild⟩ := Outcome.bind_eq_ok.mp hload
  obtain ⟨calls, hloads, hcalls⟩ := readsTensors_build gguf projection _ model hbuild
  have hread : ComesTo sha256 path projection disk (.loading identity gguf [])
      (.loading identity gguf calls) := comesTo_read file hnamed hfile identity hcalls []
  exact ((comesTo_parsed file hnamed hfile hparse identity).trans hread).trans
    (.step (.load hloads) nofun)

/-- A replica comes up from every file that loads, if the disk is left alone. -/
theorem startup_ready (hnamed : disk.named = some id) (hfile : disk.files[id]? = some file)
    {model : LoadedDense} (hload : LoadedDense.load path file.bytes projection = .ok model) :
    ComesTo sha256 path projection disk .starting
      (.ready ⟨sha256 file.bytes, .of file⟩ model) :=
  ((comesTo_identified file hnamed hfile).trans (comesTo_loaded file hnamed hfile hload _)).trans
    (.step (.verify hnamed hfile rfl) nofun)

end Ready

-- ---------------------------------------------------------------------------
-- A file nobody disturbs
-- ---------------------------------------------------------------------------

section Undisturbed

variable [FloatOps] {sha256 : List UInt8 → Digest} {path : String}
  {projection : Q8Projection}

/-- The header and the tensors are those of the file. -/
structure ReadFrom (path : String) (content : List UInt8) (gguf : GgufFile)
    (calls : List TensorCall) : Prop where
  header : readMetadataWithLen content (.ofNat content.length) = .ok gguf
  tensors : ∀ call ∈ calls,
    (TensorStore.ofHeader path content gguf).tensorBytes call.1 = .ok call.2

/-- What was digested is the file; and for as long as the path names it, so is all that was read
since. -/
def StartupPhase.FromFile (sha256 : List UInt8 → Digest) (path : String)
    (projection : Q8Projection) (id : Nat) (file : File) (named : Option Nat) : StartupPhase → Prop
  | .starting => False
  | .opened handle => handle = id
  | .digesting handle fingerprint hashed =>
    handle = id ∧ fingerprint = .of file ∧ hashed <+: file.bytes
  | .identified identity => identity = ⟨sha256 file.bytes, .of file⟩
  | .measured identity fileLen =>
    identity = ⟨sha256 file.bytes, .of file⟩ ∧ (named = some id → fileLen = file.bytes.length)
  | .header identity fileLen handle bytes =>
    identity = ⟨sha256 file.bytes, .of file⟩ ∧
      (named = some id → fileLen = file.bytes.length ∧ handle = id ∧ bytes <+: file.bytes)
  | .loading identity gguf calls =>
    identity = ⟨sha256 file.bytes, .of file⟩ ∧
      (named = some id → ReadFrom path file.bytes gguf calls)
  | .tensor identity gguf calls desc handle bytes =>
    identity = ⟨sha256 file.bytes, .of file⟩ ∧
      (named = some id → ReadFrom path file.bytes gguf calls ∧ handle = id ∧
        (TensorStore.ofHeader path file.bytes gguf).descriptor desc.name = .ok desc ∧
        Reading file.bytes desc.absoluteOffset.toNat desc.nBytes.toNat bytes)
  | .loaded identity model =>
    identity = ⟨sha256 file.bytes, .of file⟩ ∧
      (named = some id → LoadedDense.load path file.bytes projection = .ok model)
  | .ready identity model =>
    identity = ⟨sha256 file.bytes, .of file⟩ ∧
      LoadedDense.load path file.bytes projection = .ok model
  | .refused => True

/-- The file is there, and the replica is where it gets by it. -/
structure Startup.FromFile (sha256 : List UInt8 → Digest) (path : String)
    (projection : Q8Projection) (id : Nat) (file : File) (s : Startup) : Prop where
  there : s.disk.files[id]? = some file
  phase : s.phase.FromFile sha256 path projection id file s.disk.named

/-- A path that comes to name another file asks for nothing more. -/
theorem StartupPhase.FromFile.renamed {id : Nat} {file : File} {named named' : Option Nat}
    {phase : StartupPhase} (h : phase.FromFile sha256 path projection id file named)
    (hnamed : named' = some id → named = some id) :
    phase.FromFile sha256 path projection id file named' := by
  cases phase with
  | starting => exact h
  | opened handle => exact h
  | digesting handle fingerprint hashed => exact h
  | identified identity => exact h
  | measured identity fileLen => exact ⟨h.1, fun hback => h.2 (hnamed hback)⟩
  | header identity fileLen handle bytes => exact ⟨h.1, fun hback => h.2 (hnamed hback)⟩
  | loading identity gguf calls => exact ⟨h.1, fun hback => h.2 (hnamed hback)⟩
  | tensor identity gguf calls desc handle bytes => exact ⟨h.1, fun hback => h.2 (hnamed hback)⟩
  | loaded identity model => exact ⟨h.1, fun hback => h.2 (hnamed hback)⟩
  | ready identity model => exact h
  | refused => trivial

omit [FloatOps] in
/-- A tensor lies inside its file. -/
theorem ReadFrom.inFile {content : List UInt8} {gguf : GgufFile} {calls : List TensorCall}
    (h : ReadFrom path content gguf calls) {desc : TensorDescriptor} (hdesc : desc ∈ gguf.tensors) :
    desc.absoluteOffset.toNat + desc.nBytes.toNat ≤ content.length := by
  obtain ⟨headerLen, -, hlaid⟩ := wellLaidOut_of_ok h.header
  have hin : desc.absoluteOffset.toNat + desc.nBytes.toNat ≤ (UInt64.ofNat content.length).toNat :=
    hlaid.inFile desc hdesc
  rw [UInt64.toNat_ofNat'] at hin
  exact hin.trans (Nat.mod_le _ _)

omit [FloatOps] in
/-- One more tensor, read to its end. -/
theorem ReadFrom.snoc {content : List UInt8} {gguf : GgufFile} {calls : List TensorCall}
    (h : ReadFrom path content gguf calls) {desc : TensorDescriptor} {bytes : List UInt8}
    (hdesc : (TensorStore.ofHeader path content gguf).descriptor desc.name = .ok desc)
    (hread : Reading content desc.absoluteOffset.toNat desc.nBytes.toNat bytes)
    (hlength : bytes.length = desc.nBytes.toNat) :
    ReadFrom path content gguf (calls ++ [(desc.name, bytes)]) := by
  refine ⟨h.header, fun call hcall => ?_⟩
  rcases List.mem_append.mp hcall with hcall | hcall
  · exact h.tensors call hcall
  · obtain rfl := List.mem_singleton.mp hcall
    have hslice := hread.whole hlength (h.inFile (TensorStore.descriptor_eq_ok hdesc).1)
    exact Outcome.bind_eq_ok.mpr ⟨desc, hdesc, Outcome.okOr_eq_ok.mpr hslice⟩

/-- The load of the file is what was made of it. -/
theorem ReadFrom.load {content : List UInt8} {gguf : GgufFile} {calls : List TensorCall}
    (h : ReadFrom path content gguf calls) {model : LoadedDense}
    (hload : LoadsBy gguf.tensors (LoadedDense.build gguf projection) calls model) :
    LoadedDense.load path content projection = .ok model := by
  rw [LoadedDense.load_eq]
  exact Outcome.bind_eq_ok.mpr ⟨gguf, h.header, hload.sound h.tensors⟩

/-- A step that leaves a file alone: nobody writes it or puts it behind the path again, and
`verify_unchanged` takes no other for it. -/
structure LeavesAlone (id : Nat) (file : File) (e : Entry Startup StartupAction Unit) : Prop where
  disk : ∀ action, e.action = .disk action → action.Undisturbed id
  verify : e.action = .verify → ∀ other passing, e.before.disk.named = some other →
    e.before.disk.files[other]? = some passing → FileFingerprint.of passing = .of file → other = id

omit [FloatOps] in
/-- The file behind the path, where the path names it. -/
theorem same_file {disk : Disk} {id other : Nat} {file file' : File}
    (hthere : disk.files[id]? = some file) (hback : disk.named = some id)
    (hnamed : disk.named = some other) (hfile : disk.files[other]? = some file') :
    other = id ∧ file' = file := by
  obtain rfl := Option.some.inj (hnamed.symm.trans hback)
  exact ⟨rfl, Option.some.inj (hfile.symm.trans hthere)⟩

/-- What holds of a start from a file holds behind every step that leaves it alone. -/
theorem StartupStep.fromFile {s s' : Startup} {action : StartupAction}
    (hstep : StartupStep sha256 path projection s action () s') {id : Nat} {file : File}
    (halone : LeavesAlone id file ⟨s, action, (), s'⟩)
    (h : s.FromFile sha256 path projection id file) :
    s'.FromFile sha256 path projection id file := by
  obtain ⟨hthere, hphase⟩ := h
  cases hstep with
  | disk =>
    -- the file keeps its bytes, whatever becomes of its name
    have hundisturbed := halone.disk _ rfl
    exact ⟨hundisturbed.file hthere, hphase.renamed hundisturbed.named⟩
  | identify hnamed hfile => exact hphase.elim
  | stat hfile =>
    obtain rfl : _ = id := hphase
    exact ⟨hthere, rfl, by rw [Option.some.inj (hfile.symm.trans hthere)], List.nil_prefix⟩
  | digest hchunk hne =>
    obtain ⟨rfl, rfl, hread⟩ := hphase
    exact ⟨hthere, rfl, rfl, prefix_chunk hread hthere hchunk⟩
  | digested hend =>
    -- a read of nothing: the digest has taken the whole file
    obtain ⟨rfl, rfl, hread⟩ := hphase
    have hwhole := whole_of_end hread hthere (by decide) hend
    exact ⟨hthere, by rw [hwhole]; rfl⟩
  | measure hnamed hfile =>
    refine ⟨hthere, hphase, fun hback => ?_⟩
    rw [(same_file hthere hback hnamed hfile).2]
  | openHeader hnamed hfile =>
    refine ⟨hthere, hphase.1, fun hback => ⟨hphase.2 hback, ?_, List.nil_prefix⟩⟩
    exact (same_file hthere hback hnamed hfile).1
  | header hchunk =>
    refine ⟨hthere, hphase.1, fun hback => ?_⟩
    obtain ⟨hlen, rfl, hread⟩ := hphase.2 hback
    exact ⟨hlen, rfl, prefix_chunk hread hthere hchunk⟩
  | parse hparse =>
    refine ⟨hthere, hphase.1, fun hback => ?_⟩
    obtain ⟨rfl, -, more, hmore⟩ := hphase.2 hback
    refine ⟨?_, fun call hcall => absurd hcall List.not_mem_nil⟩
    have hwhole := readMetadataWithLen_append hparse more
    rwa [hmore] at hwhole
  | openTensor hdesc hnamed hfile =>
    refine ⟨hthere, hphase.1, fun hback => ⟨hphase.2 hback, ?_, ?_, Reading.nil⟩⟩
    · exact (same_file hthere hback hnamed hfile).1
    · rw [(TensorStore.descriptor_eq_ok hdesc).2]
      exact hdesc
  | tensor hchunk =>
    refine ⟨hthere, hphase.1, fun hback => ?_⟩
    obtain ⟨hread, rfl, hdesc, hbytes⟩ := hphase.2 hback
    exact ⟨hread, rfl, hdesc, hbytes.chunk hthere hchunk⟩
  | close hlength =>
    refine ⟨hthere, hphase.1, fun hback => ?_⟩
    obtain ⟨hread, -, hdesc, hbytes⟩ := hphase.2 hback
    exact hread.snoc hdesc hbytes hlength
  | load hload => exact ⟨hthere, hphase.1, fun hback => (hphase.2 hback).load hload⟩
  | verify hnamed hfile hsame =>
    -- the name leads to the file that was opened, so the reads by name were of it
    obtain ⟨rfl, hmodel⟩ := hphase
    have hid := halone.verify rfl _ _ hnamed hfile hsame
    exact ⟨hthere, rfl, hmodel (hid ▸ hnamed)⟩
  | refuse => exact ⟨hthere, trivial⟩

/-- A replica that went on has opened a file to digest it, and comes from that file if it was left
alone since. -/
theorem startup_run {h : List (Entry Startup StartupAction Unit)} {s : Startup}
    (run : (startup sha256 path projection).Run h s) :
    s.phase = .starting ∨ s.phase = .refused ∨
      ∃ front e back id file, h = front ++ e :: back ∧ e.action = .identify ∧
        e.before.disk.named = some id ∧ e.before.disk.files[id]? = some file ∧
        ((∀ e' ∈ back, LeavesAlone id file e') → s.FromFile sha256 path projection id file) := by
  induction run with
  | nil hstart => exact .inl hstart
  | @snoc h s s' action result run hstep ih =>
    rcases ih with hstarting | hrefused | ⟨front, e, back, id, file, hcut, he, hnamed, hfile, ih⟩
    · obtain ⟨disk, phase⟩ := s
      obtain rfl : phase = .starting := hstarting
      cases hstep with
      | disk => exact .inl rfl
      | @identify _ id file hnamed hfile =>
        exact .inr (.inr ⟨h, _, [], id, file, rfl, rfl, hnamed, hfile, fun _ => ⟨hfile, rfl⟩⟩)
      | refuse => exact .inr (.inl rfl)
    · obtain ⟨disk, phase⟩ := s
      obtain rfl : phase = .refused := hrefused
      cases hstep with
      | disk => exact .inr (.inl rfl)
      | refuse => exact .inr (.inl rfl)
    · refine .inr (.inr ⟨front, e, back ++ [⟨s, action, result, s'⟩], id, file, ?_, he, hnamed,
        hfile, fun halone => ?_⟩)
      · rw [hcut, List.append_assoc, List.cons_append]
      · have hlast := halone _ (List.mem_append_right _ List.mem_cons_self)
        exact hstep.fromFile hlast (ih fun e' he' => halone e' (List.mem_append_left _ he'))

/-- A replica that comes up has digested a file; and if from there on nobody wrote that file or put
it behind the path again, and what `verify_unchanged` found was no other file that passes for it,
then the digest it publishes is that of the file, and what it serves is the load of the file. -/
theorem startup_identity {h : List (Entry Startup StartupAction Unit)} {disk : Disk}
    {identity : ModelIdentity} {model : LoadedDense}
    (run : (startup sha256 path projection).Run h ⟨disk, .ready identity model⟩) :
    ∃ front e back id file, h = front ++ e :: back ∧ e.action = .identify ∧
      e.before.disk.named = some id ∧ e.before.disk.files[id]? = some file ∧
      ((∀ e' ∈ back, LeavesAlone id file e') → identity.sha256 = sha256 file.bytes ∧
        LoadedDense.load path file.bytes projection = .ok model) := by
  rcases startup_run run with hstarting | hrefused | ⟨front, e, back, id, file, hcut, he, hnamed,
    hfile, hfrom⟩
  · cases hstarting
  · cases hrefused
  · refine ⟨front, e, back, id, file, hcut, he, hnamed, hfile, fun halone => ?_⟩
    obtain ⟨rfl, hmodel⟩ : _ ∧ _ := (hfrom halone).phase
    exact ⟨rfl, hmodel⟩

end Undisturbed

-- ---------------------------------------------------------------------------
-- One column
-- ---------------------------------------------------------------------------

section Samples

attribute [local instance] residueOps

/-- The model of one column, on a disk of its own. -/
def unitDisk : Disk := ⟨[⟨0, unitFile⟩], some 0⟩

/-- A replica comes up from it, and serves what it publishes the digest of. -/
theorem startup_identity_unit : ∃ model, ∀ sha256 : List UInt8 → Digest, ∃ h identity,
    (startup sha256 "model.gguf" .portable).Run h ⟨unitDisk, .ready identity model⟩ ∧
    identity.sha256 = sha256 unitFile ∧
    LoadedDense.load "model.gguf" unitFile .portable = .ok model := by
  obtain ⟨gguf, binding, model, -, -, hload, -⟩ := unitFile_unitLike.loads
  refine ⟨model, fun sha256 => ?_⟩
  have hready : ComesTo sha256 "model.gguf" .portable unitDisk .starting
      (.ready ⟨sha256 unitFile, .of ⟨0, unitFile⟩⟩ model) :=
    startup_ready ⟨0, unitFile⟩ rfl rfl hload
  obtain ⟨h, run, hquiet⟩ := hready [] (.nil rfl)
  obtain ⟨front, e, back, id, file, hcut, -, hnamed, hfile, hidentity⟩ := startup_identity run
  rw [List.nil_append] at hcut
  have he : e ∈ h := hcut ▸ List.mem_append_right _ List.mem_cons_self
  rw [(hquiet e he).1] at hnamed hfile
  obtain rfl := Option.some.inj hnamed
  obtain rfl := Option.some.inj hfile
  refine ⟨h, _, run, hidentity fun e' he' => ?_⟩
  have hmem : e' ∈ h := hcut ▸ List.mem_append_right _ (List.mem_cons_of_mem _ he')
  obtain ⟨hdisk, haction⟩ := hquiet e' hmem
  refine ⟨fun action h => absurd h (haction action), fun _ other passing hother _ _ => ?_⟩
  rw [hdisk] at hother
  exact (Option.some.inj hother).symm

end Samples

-- ---------------------------------------------------------------------------
-- A file somebody disturbs
-- ---------------------------------------------------------------------------

section Disturbed

variable [FloatOps] {sha256 : List UInt8 → Digest} {path : String}
  {projection : Q8Projection} {bytes bytes' : List UInt8} {model : LoadedDense}

theorem Startup.reachable_act {disk : Disk} {phase : StartupPhase}
    (h : (startup sha256 path projection).Reachable ⟨disk, phase⟩) (action : DiskAction) :
    (startup sha256 path projection).Reachable ⟨disk.act action, phase⟩ := by
  obtain ⟨h, run⟩ := h
  exact ⟨_, run.snoc (StartupStep.disk : StartupStep _ _ _ _ (.disk action) _ _)⟩

theorem Startup.reachable_on {disk : Disk} {phase phase' : StartupPhase}
    (h : (startup sha256 path projection).Reachable ⟨disk, phase⟩)
    (hcomes : ComesTo sha256 path projection disk phase phase') :
    (startup sha256 path projection).Reachable ⟨disk, phase'⟩ := by
  obtain ⟨h, run⟩ := h
  obtain ⟨more, run, -⟩ := hcomes h run
  exact ⟨_, run⟩

variable (sha256 path projection) in
/-- The digest of the first of the files. -/
theorem Startup.reachable_identified (file : File) (files : List File) :
    (startup sha256 path projection).Reachable ⟨⟨file :: files, some 0⟩,
      .identified ⟨sha256 file.bytes, .of file⟩⟩ :=
  reachable_on ⟨[], .nil rfl⟩ (comesTo_identified file rfl rfl)

/-- Written in place behind the digest, with as many bytes. -/
theorem rewritten_in_place (number : Nat) (hlength : bytes.length = bytes'.length)
    (hload : LoadedDense.load path bytes' projection = .ok model) :
    (startup sha256 path projection).Reachable ⟨⟨[⟨number, bytes'⟩], some 0⟩,
      .ready ⟨sha256 bytes, .of ⟨number, bytes⟩⟩ model⟩ := by
  have hidentified := Startup.reachable_identified sha256 path projection ⟨number, bytes⟩ []
  have hwritten := Startup.reachable_act hidentified (.write 0 bytes')
  have hloaded := Startup.reachable_on hwritten
    (comesTo_loaded ⟨number, bytes'⟩ rfl rfl hload ⟨sha256 bytes, .of ⟨number, bytes⟩⟩)
  refine Startup.reachable_on hloaded (.step (.verify rfl rfl ?_) nofun)
  exact congrArg (FileFingerprint.mk · number) hlength.symm

/-- Another file behind the path for as long as the load takes. -/
theorem renamed_and_back (number number' : Nat)
    (hload : LoadedDense.load path bytes' projection = .ok model) :
    (startup sha256 path projection).Reachable ⟨⟨[⟨number, bytes⟩, ⟨number', bytes'⟩], some 0⟩,
      .ready ⟨sha256 bytes, .of ⟨number, bytes⟩⟩ model⟩ := by
  have hidentified :=
    Startup.reachable_identified sha256 path projection ⟨number, bytes⟩ [⟨number', bytes'⟩]
  have hother := Startup.reachable_act hidentified (.name (some 1))
  have hloaded := Startup.reachable_on hother
    (comesTo_loaded ⟨number', bytes'⟩ rfl rfl hload ⟨sha256 bytes, .of ⟨number, bytes⟩⟩)
  have hback := Startup.reachable_act hloaded (.name (some 0))
  exact Startup.reachable_on hback (.step (.verify rfl rfl rfl) nofun)

/-- Another file behind the path, of the same length and under the number of the one it replaces. -/
theorem number_reused (number : Nat) (hlength : bytes.length = bytes'.length)
    (hload : LoadedDense.load path bytes' projection = .ok model) :
    (startup sha256 path projection).Reachable ⟨⟨[⟨number, bytes⟩, ⟨number, bytes'⟩], some 1⟩,
      .ready ⟨sha256 bytes, .of ⟨number, bytes⟩⟩ model⟩ := by
  have hidentified := Startup.reachable_identified sha256 path projection ⟨number, bytes⟩ []
  have hcreated := Startup.reachable_act hidentified (.create ⟨number, bytes'⟩)
  have hnamed := Startup.reachable_act hcreated (.name (some 1))
  have hloaded := Startup.reachable_on hnamed
    (comesTo_loaded ⟨number, bytes'⟩ rfl rfl hload ⟨sha256 bytes, .of ⟨number, bytes⟩⟩)
  refine Startup.reachable_on hloaded (.step (.verify rfl rfl ?_) nofun)
  exact congrArg (FileFingerprint.mk · number) hlength.symm

end Disturbed

end CamelidEnterprise.Server

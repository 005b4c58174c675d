import Mathlib.Logic.Relation
import WasmHost.Wasi.System

/-!
# What a call can do

Every invariant of the runtime is proved from one inversion theorem, `World.call_effects`: a call
makes at most one edit of a mount (`World.Edits`, `World.perform`), followed by plain effects that
leave the mounts alone (`World.Plain`). An invariant is preserved by all calls as soon as it is
preserved by each plain effect and by each edit.

The edits are those of the abstract mounts of `Mount.Edit`, and `World.call_refines` says that on
each mount the calls are nothing else: afterwards the mount is as before, or it is the result of
one allowed edit.
-/

namespace WasmHost

namespace World

/-! ### Edits -/

/-- The state after an edit of a mount, with what the host does about records, descriptors and
the dirty mark. -/
def perform (w : World) (mount : VirtualMount) : Mount.Edit ℕ → World
  | .createFile path _ => w.createFile mount path
  | .createDir path => (w.modifyDirs mount fun dirs => dirs.set path ()).markDirty mount
  | .removeFile path =>
      match mount with
      | .workspace =>
          ((w.detachOpenWorkspaceFile path).modifyFiles .workspace
            fun files => files.delete path).markWorkspaceDirty
      | .scratch => w.modifyFiles .scratch fun files => files.delete path
  | .removeDir path =>
      match mount with
      | .workspace =>
          ((w.detachOpenWorkspaceDirectory path).modifyDirs .workspace
            fun dirs => dirs.delete path).markWorkspaceDirty
      | .scratch => w.modifyDirs .scratch fun dirs => dirs.delete path
  | .renameFile source target record =>
      (w.renameFileIn mount source target record).markDirty mount
  | .renameDir source target => (w.renameDirectoryIn mount source target).markDirty mount

/-- The mount and the base directory in which `path_open` may create a file. -/
def openBase (w : World) (fd : Int) (path : Text) : Option (VirtualMount × Text) :=
  match w.mutableWorkspaceBasePath fd with
  | some base => some (.workspace, base)
  | none =>
      match (if w.writable then w.workspaceCwdBasePathForPathRequest fd path else none) with
      | some base => some (.workspace, base)
      | none => (w.scratchBasePath fd).map fun base => (.scratch, base)

/-- The edit that an accepted call makes, with the checks that accept it. -/
inductive Edits (w : World) : Call → VirtualMount → Mount.Edit ℕ → Prop
  | createFile {fd : Int} {dirflags : Flags} {path : Text} {oflags : Flags}
      {rightsBase rightsInheriting : Rights} {fdflags : Flags} {mount : VirtualMount}
      {base key : Text} (hbase : w.openBase fd path = some (mount, base))
      (hkey : w.resolveIn mount base path = .ok key)
      (hcreate : hasFlag oflags oflagsCreat = true)
      (hallow : (w.mountOf mount).Allows (.createFile key w.host.records.next)) :
      Edits w (.pathOpen fd dirflags path oflags rightsBase rightsInheriting fdflags) mount
        (.createFile key w.host.records.next)
  | createFile2 {fd : Int} {dirflags : Flags} {path : Text} {oflags : Flags}
      {rightsBase rightsInheriting : Rights} {fdflags fdFlagsExt : Flags} {mount : VirtualMount}
      {base key : Text} (hbase : w.openBase fd path = some (mount, base))
      (hkey : w.resolveIn mount base path = .ok key)
      (hcreate : hasFlag oflags oflagsCreat = true)
      (hallow : (w.mountOf mount).Allows (.createFile key w.host.records.next)) :
      Edits w (.pathOpen2 fd dirflags path oflags rightsBase rightsInheriting fdflags fdFlagsExt)
        mount (.createFile key w.host.records.next)
  | createDir {fd : Int} {path : Text} {mount : VirtualMount} {base key : Text}
      (hbase : w.mutableBase fd path = .ok (mount, base))
      (hkey : w.resolveIn mount base path = .ok key)
      (hallow : (w.mountOf mount).Allows (.createDir key)) :
      Edits w (.pathCreateDirectory fd path) mount (.createDir key)
  | removeFile {fd : Int} {path : Text} {mount : VirtualMount} {base key : Text}
      (hbase : w.mutableBase fd path = .ok (mount, base))
      (hkey : w.resolveIn mount base path = .ok key)
      (hallow : (w.mountOf mount).Allows (.removeFile key)) :
      Edits w (.pathUnlinkFile fd path) mount (.removeFile key)
  | removeDir {fd : Int} {path : Text} {mount : VirtualMount} {base key : Text}
      (hbase : w.mutableBase fd path = .ok (mount, base))
      (hkey : w.resolveIn mount base path = .ok key)
      (hallow : (w.mountOf mount).checkRemoveDirectory base key = .ok ()) :
      Edits w (.pathRemoveDirectory fd path) mount (.removeDir key)
  | renameFile {oldFd newFd : Int} {oldPath newPath : Text} {mount : VirtualMount}
      {source target : Text} {record : ℕ}
      (hkeys : w.renameKeys oldFd oldPath newFd newPath = .ok (mount, source, target))
      (hget : (w.mountOf mount).files.get source = some record)
      (hallow : (w.mountOf mount).Allows (.renameFile source target record)) :
      Edits w (.pathRename oldFd oldPath newFd newPath) mount (.renameFile source target record)
  | renameDir {oldFd newFd : Int} {oldPath newPath : Text} {mount : VirtualMount}
      {source target : Text}
      (hkeys : w.renameKeys oldFd oldPath newFd newPath = .ok (mount, source, target))
      (hallow : (w.mountOf mount).Allows (.renameDir source target)) :
      Edits w (.pathRename oldFd oldPath newFd newPath) mount (.renameDir source target)

end World

/-- The standard input is the same, and is read up to a position that is not an earlier one and does
not lie behind its end. -/
structure Runtime.ReadsOn (r r' : Runtime) : Prop where
  stdin : r'.stdin = r.stdin
  le : r.stdinOffset ≤ r'.stdinOffset
  bound : r.stdinOffset ≤ r.stdin.length → r'.stdinOffset ≤ r.stdin.length

theorem Runtime.ReadsOn.refl (r : Runtime) : r.ReadsOn r := ⟨rfl, le_refl _, id⟩

theorem Runtime.ReadsOn.trans {r r' r'' : Runtime} (h : r.ReadsOn r') (h' : r'.ReadsOn r'') :
    r.ReadsOn r'' :=
  ⟨h'.stdin.trans h.stdin, h.le.trans h'.le, fun hr => h.stdin ▸ h'.bound (h.stdin ▸ h.bound hr)⟩

namespace World

/-! ### Plain effects -/

/-- Nothing changed but offsets, output, the position in standard input, extended flags, the
working directory and the next free number. The workspace may become dirty, but not clean. -/
structure Quiet (w w' : World) : Prop where
  records : w'.host.records = w.host.records
  fileMaps : w'.host.fileMaps = w.host.fileMaps
  dirSets : w'.host.dirSets = w.host.dirSets
  pipes : w'.host.pipes = w.host.pipes
  workspaceFiles : w'.host.workspace.files = w.host.workspace.files
  workspaceDirs : w'.host.workspace.dirs = w.host.workspace.dirs
  writable : w'.host.workspace.writable = w.host.workspace.writable
  dirty : w.host.workspace.dirty = true → w'.host.workspace.dirty = true
  packageRoot : w'.host.packageRoot = w.host.packageRoot
  runtimeFiles : w'.runtime.files = w.runtime.files
  runtimeDirs : w'.runtime.workspaceDirs = w.runtime.workspaceDirs
  packageRootFd : w'.runtime.packageRootFd = w.runtime.packageRootFd
  openFiles : w'.runtime.openFiles = w.runtime.openFiles
  scratch : w'.runtime.scratch = w.runtime.scratch
  nextFileFd : w.runtime.nextFileFd ≤ w'.runtime.nextFileFd
  offsets : w.host.offsets.next ≤ w'.host.offsets.next
  cwd : CanonicalCwd w.runtime.cwd → CanonicalCwd w'.runtime.cwd
  stdin : w.runtime.ReadsOn w'.runtime

/-- Every path that a call can start from is canonical. -/
structure CanonicalBases (w : World) : Prop where
  cwd : CanonicalCwd w.runtime.cwd
  openFile : ∀ fd file path, w.openFile fd = some file → file.path = some path →
    CanonicalPath path

/-- What a new descriptor is opened on. -/
inductive Opens (w : World) : OpenFile → Prop
  | directory {path : Text} {mount : Option MountName} {rights inheriting : Rights}
      {fdflags : Flags} {offset : ℕ} (hpath : w.CanonicalBases → CanonicalPath path) :
      Opens w ⟨.directory inheriting none offset, mount, some path, rights, fdflags⟩
  | mounted {mount : VirtualMount} {path : Text} {record offset : ℕ} {rights : Rights}
      {fdflags : Flags} (hpath : w.CanonicalBases → CanonicalPath path)
      (hget : (w.mountOf mount).files.get path = some record) :
      Opens w ⟨.file record true offset, fileMountName mount, some path, rights, fdflags⟩
  | packageRoot {path : Text} {record offset : ℕ} {rights : Rights}
      (hpath : w.CanonicalBases → CanonicalPath path)
      (hget : w.host.packageRoot.mount.files.get path = some record) :
      Opens w ⟨.file record false offset, some .packageRoot, some path, rights, 0⟩
  | readOnly {path : Text} {record offset : ℕ} {rights : Rights}
      (hpath : w.CanonicalBases → CanonicalPath path) (hwritable : w.writable = false)
      (hget : w.workspaceMount.files.get path = some record) :
      Opens w ⟨.file record false offset, none, some path, rights, 0⟩

/-- What a duplicate is a duplicate of. -/
inductive Source (w : World) : OpenFile → Prop
  | openFile {fd : Int} {file : OpenFile} (hfile : w.openFile fd = some file) : Source w file
  | stdio {fd : Int} {rights : Rights} : Source w ⟨.stdio fd, none, none, rights, 0⟩

/-- A number that descriptors may be moved to. -/
def ValidTarget (target : Int) : Prop :=
  isDynamicFileFdNumber target = true ∨ isStdioFd target = true

/-- Change only the bytes of a pipe. -/
def setPipeBytes (w : World) (pipe : ℕ) (bytes : Bytes) : World :=
  w.setHost (w.host.modifyPipe pipe fun p => { p with bytes := bytes })

/-- Give a workspace file other content, which makes it the guest's own. -/
def adoptRecord (w : World) (record : ℕ) (bytes : Bytes) : World :=
  (w.modifyRecord record fun r => { r with bytes := bytes, fallback := false }).markWorkspaceDirty

/-- Move a descriptor to another number. -/
def moveDescriptor (w : World) (fd target : Int) (file : OpenFile) : World :=
  (((w.closeReplaced target).dropOpenFile fd).putOpenFile target file).reserveFd target

/-- Open a duplicate at a number. -/
def placeDuplicate (w : World) (target : Int) (file : OpenFile) : World :=
  (((w.closeReplaced target).retainOpenFile file).putOpenFile target file).reserveFd target

/-- The state after the two ends of a new pipe have been opened. -/
def openPipe (w : World) : World :=
  let pipe := w.host.pipes.next
  let readEnd := w.allocPipe.allocateDynamicFileFd firstFileFd
  let w₁ := readEnd.1.putOpenFile readEnd.2 (pipeEnd .read pipe)
  let writeEnd := w₁.allocateDynamicFileFd (readEnd.2 + 1)
  writeEnd.1.putOpenFile writeEnd.2 (pipeEnd .write pipe)

/-- An effect that leaves the mounts alone. -/
inductive Plain : World → World → Prop
  | quiet {w w' : World} (h : Quiet w w') : Plain w w'
  | pipeBytes (w : World) (pipe : ℕ) (bytes : Bytes)
      (hlimit : (w.host.pipes.get pipe).bytes.length ≤ pipeBufferLimit →
        bytes.length ≤ pipeBufferLimit) : Plain w (w.setPipeBytes pipe bytes)
  | content {w : World} {fd : Int} {file : OpenFile} {record : ℕ} (bytes : Bytes)
      (hfile : w.openFile fd = some file) (hrecord : file.record? = some record)
      (hwritable : file.writable = true) (hmount : file.mount ≠ some .workspace) :
      Plain w (w.modifyRecord record fun r => { r with bytes := bytes })
  | adopt {w : World} {fd : Int} {file : OpenFile} {record : ℕ} (bytes : Bytes)
      (hfile : w.openFile fd = some file) (hrecord : file.record? = some record)
      (hwritable : file.writable = true) (hmount : file.mount = some .workspace) :
      Plain w (w.adoptRecord record bytes)
  | truncate {w : World} {mount : VirtualMount} {key : Text} {record : ℕ}
      (hget : (w.mountOf mount).files.get key = some record) :
      Plain w (w.truncateFile mount record)
  | opened {w : World} {file : OpenFile} (offset : ℕ) (h : w.Opens file)
      (hoffset : offset? file = some w.host.offsets.next) :
      Plain w ((w.allocOffset offset).pushOpenFile file)
  | closed {w : World} {fd : Int} {file : OpenFile} (hfile : w.openFile fd = some file) :
      Plain w ((w.closeOpenFile file).dropOpenFile fd)
  | moved {w : World} {fd target : Int} {file : OpenFile} (hfile : w.openFile fd = some file)
      (htarget : ValidTarget target) (hne : fd ≠ target) : Plain w (w.moveDescriptor fd target file)
  | duplicated {w : World} {target : Int} {file : OpenFile} (hfile : w.Source file)
      (htarget : ValidTarget target) : Plain w (w.placeDuplicate target file)
  | preopened {w : World} {target : Int} (stat : FdStat) (preopenPath : Text) (mount : MountName)
      (htarget : ValidTarget target) :
      Plain w ((w.allocOffset 0).placeDuplicate target (w.preopenDuplicate stat preopenPath mount))
  | piped (w : World) : Plain w w.openPipe
  | rights {w : World} {fd : Int} {file : OpenFile} (rightsBase rightsInheriting : Rights)
      (hfile : w.openFile fd = some file) :
      Plain w (w.putOpenFile fd (withRights file rightsBase rightsInheriting))

/-- Finitely many plain effects. -/
abbrev Plains : World → World → Prop := Relation.ReflTransGen Plain

variable {w w' w'' : World} {c : Call} {mount : VirtualMount} {e : Mount.Edit ℕ}

theorem Quiet.plains (h : Quiet w w') : Plains w w' :=
  Relation.ReflTransGen.single (.quiet h)

theorem Quiet.refl (w : World) : Quiet w w := by
  constructor <;> first | rfl | exact le_refl _ | exact id | exact ⟨rfl, le_refl _, id⟩

theorem Plain.plains (h : Plain w w') : Plains w w' :=
  Relation.ReflTransGen.single h

theorem Plains.then (h : Plains w w') (h' : Plain w' w'') : Plains w w'' :=
  Relation.ReflTransGen.tail h h'

theorem Plains.quiet (h : Plains w w') (h' : Quiet w' w'') : Plains w w'' :=
  h.then (.quiet h')

/-! ### Descriptor calls -/

section

variable (w : World) {target : Int}

theorem quiet_setFdFlagsExt (fdFlagsExt : OrdMap Int Flags) :
    Quiet w (w.setFdFlagsExt fdFlagsExt) := by
  constructor <;> first | rfl | exact le_refl _ | exact id | exact ⟨rfl, le_refl _, id⟩

theorem quiet_allocOffset (offset : ℕ) : Quiet w (w.allocOffset offset) := by
  constructor <;> first
    | rfl
    | exact le_refl _
    | exact Nat.le_succ _
    | exact id
    | exact ⟨rfl, le_refl _, id⟩

theorem quiet_setOffset (offset value : ℕ) : Quiet w (w.setOffset offset value) := by
  constructor <;> first | rfl | exact le_refl _ | exact id | exact ⟨rfl, le_refl _, id⟩

theorem quiet_markWorkspaceDirty : Quiet w w.markWorkspaceDirty := by
  constructor <;> first
    | rfl
    | exact le_refl _
    | exact id
    | exact ⟨rfl, le_refl _, id⟩
    | exact fun h => (congrArg (w.writable || ·) h).trans (Bool.or_true _)

theorem quiet_writeStdio (stdioFd : Int) (chunks : List Bytes) :
    Quiet w (w.writeStdio stdioFd chunks) := by
  unfold writeStdio
  split <;>
    (constructor <;> first | rfl | exact le_refl _ | exact id | exact ⟨rfl, le_refl _, id⟩)

theorem plains_fdClose (fd : Int) : Plains w (w.fdClose fd).1 := by
  unfold fdClose
  split
  next file hfile =>
    exact (Plain.closed hfile).plains.quiet (quiet_setFdFlagsExt _ _)
  · exact .refl

theorem plains_fdRenumber (fd target : Int) : Plains w (w.fdRenumber fd target).1 := by
  unfold fdRenumber
  split
  · exact .refl
  next file hfile =>
    split
    · exact .refl
    next htarget =>
      split
      · exact .refl
      split
      · exact .refl
      next hne =>
        have hvalid : ValidTarget target := by
          rw [not_and_or, Bool.not_eq_false, Bool.not_eq_false] at htarget
          exact htarget
        exact (Plain.moved hfile hvalid hne).plains.quiet (quiet_setFdFlagsExt _ _)

variable {fd : Int} {w' : World} {file : OpenFile} (mem : Memory) {record : ℕ}
    {path base key : Text} {mount : VirtualMount} (oflags : Flags) {c : Call}

/-- A duplicate comes from the table, is a standard stream, or stands for a preopened directory
and gets an offset of its own. -/
theorem duplicateOpenFileForFd_spec (h : w.duplicateOpenFileForFd fd = (w', some file)) :
    (w' = w ∧ w.Source file) ∨
      (w' = w.allocOffset 0 ∧ ∃ stat preopenPath mount,
        file = w.preopenDuplicate stat preopenPath mount) := by
  unfold duplicateOpenFileForFd at h
  split at h
  next file' hfile =>
    obtain ⟨rfl, hf⟩ := Prod.mk.inj h
    rw [← Option.some.inj hf]
    exact .inl ⟨rfl, .openFile hfile⟩
  · split at h
    · cases h
    next stat hstat =>
      split at h
      next rights =>
        obtain ⟨rfl, hf⟩ := Prod.mk.inj h
        rw [← Option.some.inj hf]
        exact .inl ⟨rfl, .stdio⟩
      · repeat' split at h
        all_goals first
          | (obtain ⟨rfl, hf⟩ := Prod.mk.inj h
             rw [← Option.some.inj hf]
             exact .inr ⟨rfl, _, _, _, rfl⟩)
          | cases h

/-- Duplicating changes nothing that matters elsewhere. -/
theorem quiet_duplicateOpenFileForFd (h : w.duplicateOpenFileForFd fd = (w', some file)) :
    Quiet w w' := by
  rcases w.duplicateOpenFileForFd_spec h with ⟨rfl, -⟩ | ⟨rfl, -⟩
  · exact Quiet.refl _
  · exact w.quiet_allocOffset 0

theorem duplicateOpenFileForFd_none (h : w.duplicateOpenFileForFd fd = (w', none)) : w' = w := by
  unfold duplicateOpenFileForFd at h
  repeat' split at h
  all_goals first
    | exact (Prod.mk.inj h).1.symm
    | cases (Prod.mk.inj h).2

/-- A descriptor at an allocated number is a duplicate at a free number. -/
theorem placeDuplicate_of_free (file : OpenFile) (hfree : w.openFile target = none)
    (hdynamic : firstFileFd ≤ target) :
    w.placeDuplicate target file =
      { host := w.host.retainOpenFile file
        runtime :=
          { w.runtime with
            openFiles := w.runtime.openFiles.set target file
            nextFileFd :=
              if w.runtime.nextFileFd ≤ target then target + 1 else w.runtime.nextFileFd } } := by
  simp [placeDuplicate, closeReplaced, hfree, retainOpenFile, putOpenFile, setOpenFiles, setHost,
    reserveFd, isDynamicFileFdNumber, hdynamic]

/-- Placing a duplicate at a number. -/
theorem plain_placeDuplicate (h : w.duplicateOpenFileForFd fd = (w', some file))
    (htarget : ValidTarget target) : Plain w (w'.placeDuplicate target file) := by
  rcases w.duplicateOpenFileForFd_spec h with
    ⟨rfl, hsource⟩ | ⟨rfl, stat, preopenPath, mount, rfl⟩
  · exact .duplicated hsource htarget
  · exact .preopened stat preopenPath mount htarget

theorem firstFileFd_le_allocateDynamicFileFd (minResultFd : Int) :
    firstFileFd ≤ (w.allocateDynamicFileFd minResultFd).2 :=
  (le_max_left _ _).trans (w.firstFreeFd_spec _ _).1

theorem plains_duplicateFd (fd minResultFd : Int) (fdFlagsExt : Flags) (retFdPtr : Int) :
    Plains w (w.duplicateFd mem fd minResultFd fdFlagsExt retFdPtr).1 := by
  unfold duplicateFd
  split
  · exact .refl
  split
  next w' h =>
    rw [w.duplicateOpenFileForFd_none h]
  next w' file h =>
    have hfree := w'.openFile_allocateDynamicFileFd minResultFd
    have hdynamic := w'.firstFileFd_le_allocateDynamicFileFd minResultFd
    have hplace : Plain w (w'.placeDuplicate (w'.allocateDynamicFileFd minResultFd).2 file) :=
      w.plain_placeDuplicate h (.inl (by simpa [isDynamicFileFdNumber] using hdynamic))
    rw [w'.placeDuplicate_of_free file hfree hdynamic] at hplace
    exact hplace.plains.quiet (quiet_setFdFlagsExt _ _)

theorem plains_duplicateFdTo (fd targetFd : Int) (fdFlagsExt : Flags) (retFdPtr : Int) :
    Plains w (w.duplicateFdTo mem fd targetFd fdFlagsExt retFdPtr).1 := by
  unfold duplicateFdTo
  dsimp only
  split
  · exact .refl
  split
  · exact .refl
  split
  · exact .refl
  next htarget =>
    split
    · exact .refl
    next hne =>
      split
      next w' h => rw [w.duplicateOpenFileForFd_none h]
      next w' file h =>
        split
        · exact .refl
        have hvalid : ValidTarget (toUint32 targetFd) := by
          rw [not_and_or, Bool.not_eq_false, Bool.not_eq_false] at htarget
          exact htarget
        exact (w.plain_placeDuplicate h hvalid).plains.quiet (quiet_setFdFlagsExt _ _)

/-! ### Reading and writing -/

theorem zeroPad_of_le {bytes : Bytes} {total : ℕ} (h : total ≤ bytes.length) :
    zeroPad bytes total = bytes := by
  rw [zeroPad, Nat.sub_eq_zero_of_le h, List.replicate_zero, List.append_nil]

/-- Chunks that are all empty and lie inside the file change nothing. -/
theorem bytes_writeChunks {loop : WriteLoop} {chunks : List Bytes}
    (h : (writeChunks loop chunks).changed = false) :
    (writeChunks loop chunks).bytes = loop.bytes ∧ loop.changed = false := by
  unfold writeChunks at h ⊢
  induction chunks generalizing loop with
  | nil => exact ⟨rfl, h⟩
  | cons chunk chunks ih =>
    rw [List.foldl_cons] at h ⊢
    obtain ⟨hbytes, hchanged⟩ := ih h
    simp only [Bool.or_eq_false_iff, decide_eq_false_iff_not, not_lt, Nat.le_zero] at hchanged
    obtain ⟨⟨hclean, hfits⟩, hempty⟩ := hchanged
    obtain rfl := List.length_eq_zero_iff.1 hempty
    refine ⟨hbytes.trans ?_, hclean⟩
    have hin : loop.offset ≤ loop.bytes.length := by simpa using hfits
    simp [writeChunk, zeroPad_of_le hin]

section

variable (hfile : w.openFile fd = some file)
include hfile

/-- Other content for the object of a descriptor, with the mark that this sets. -/
theorem plain_markOpenFileDirty
    (hrecord : file.record? = some record) (hwritable : file.writable = true) (bytes : Bytes) :
    Plain w ((w.modifyRecord record fun r => { r with bytes := bytes }).markOpenFileDirty file
      record) := by
  unfold markOpenFileDirty
  split
  next hmount =>
    have hadopt : ((w.modifyRecord record fun r => { r with bytes := bytes }).modifyRecord record
        fun r => { r with fallback := false }).markWorkspaceDirty = w.adoptRecord record bytes := by
      simp only [modifyRecord, setHost, Heap.modify_modify, adoptRecord]
    rw [hadopt]
    exact .adopt bytes hfile hrecord hwritable hmount
  next hmount => exact .content bytes hfile hrecord hwritable hmount

theorem plains_writeOpenFileAt
    (hrecord : file.record? = some record) (hwritable : file.writable = true) (chunks : List Bytes)
    (offset : ℕ) : Plains w (w.writeOpenFileAt file record chunks offset).1 := by
  unfold writeOpenFileAt
  dsimp only
  split
  · exact (w.plain_markOpenFileDirty hfile hrecord hwritable _).plains
  next hclean =>
    -- nothing was written, so that the object is stored as it was
    have hbytes := (bytes_writeChunks (by simpa using hclean)).1
    have hsame : w.modifyRecord record (fun r => { r with bytes :=
        (writeChunks ⟨(w.host.records.get record).bytes, offset, false⟩ chunks).bytes }) = w := by
      rw [modifyRecord, Heap.modify_of_eq _ (by rw [hbytes])]
      rfl
    rw [hsame]

theorem plains_writeOpenFile
    (hrecord : file.record? = some record) (hwritable : file.writable = true) (offset : ℕ)
    (chunks : List Bytes) : Plains w (w.writeOpenFile file record offset chunks) := by
  unfold writeOpenFile
  exact (w.plains_writeOpenFileAt hfile hrecord hwritable chunks _).quiet (quiet_setOffset _ _ _)

theorem plains_resizeOpenFile
    (hrecord : file.record? = some record) (hwritable : file.writable = true) (size : ℕ) :
    Plains w (w.resizeOpenFile file record size) := by
  unfold resizeOpenFile
  split
  · exact .refl
  exact (w.plain_markOpenFileDirty hfile hrecord hwritable
    (resizeBytes (w.host.records.get record).bytes size)).plains

end

theorem writable_of_canWriteFile (h : ¬file.canWriteFile = false) : file.writable = true := by
  rw [Bool.not_eq_false, OpenFile.canWriteFile, Bool.and_eq_true] at h
  exact h.1

theorem plains_fdWritePipe (file : OpenFile) (direction : Direction) (pipe : ℕ)
    (iovsPtr iovsLen nwrittenPtr : Int) :
    Plains w (w.fdWritePipe mem file direction pipe iovsPtr iovsLen nwrittenPtr).1 := by
  unfold fdWritePipe
  repeat' split
  all_goals first
    | exact .refl
    | skip
  next chunks total hiovs hlimit =>
    refine (Plain.pipeBytes w pipe _ fun _ => ?_).plains
    have hle := length_flatten_readIovChunks_le hiovs
    change ((w.host.pipes.get pipe).bytes ++ zeroPad chunks.flatten total).length ≤ _
    simp only [zeroPad, List.length_append, List.length_replicate]
    dsimp only at hle
    omega

theorem plains_fdWrite (fd iovsPtr iovsLen nwrittenPtr : Int) :
    Plains w (w.fdWrite mem fd iovsPtr iovsLen nwrittenPtr).1 := by
  unfold fdWrite
  split
  · repeat' split
    all_goals first
      | exact .refl
      | exact (w.quiet_writeStdio _ _).plains
  next file hfile =>
    split
    · exact w.plains_fdWritePipe ..
    · unfold fdWriteStdio
      repeat' split
      all_goals first
        | exact .refl
        | exact (w.quiet_writeStdio _ _).plains
    · exact .refl
    next record writable offset hkind =>
      have hrecord : file.record? = some record := by simp [OpenFile.record?, hkind]
      split
      · exact .refl
      next hcan =>
        repeat' split
        all_goals first
          | exact .refl
          | exact w.plains_writeOpenFile hfile hrecord (writable_of_canWriteFile hcan) _ _

theorem plains_fdPwrite (fd iovsPtr iovsLen offset nwrittenPtr : Int) :
    Plains w (w.fdPwrite mem fd iovsPtr iovsLen offset nwrittenPtr).1 := by
  unfold fdPwrite
  split
  · exact .refl
  split
  · exact .refl
  split
  · exact .refl
  next file hfile =>
    split
    next record writable offset hkind =>
      have hrecord : file.record? = some record := by simp [OpenFile.record?, hkind]
      split
      · exact .refl
      next hcan =>
        repeat' split
        all_goals first
          | exact .refl
          | exact w.plains_writeOpenFileAt hfile hrecord (writable_of_canWriteFile hcan) _ _
    · exact .refl

theorem plains_readStdin (iovsPtr iovsLen nreadPtr : Int) :
    Plains w (w.readStdin mem iovsPtr iovsLen nreadPtr).1 := by
  unfold readStdin
  split
  · exact .refl
  next s hs =>
    -- what is scattered lies between the old position and the end
    have htotal : s.total ≤ w.runtime.stdin.length - w.runtime.stdinOffset := by
      have hdelivered := congrArg List.length (readIntoIovs_delivered hs)
      rw [List.length_take, List.length_drop] at hdelivered
      exact hdelivered.trans_le (min_le_right _ _)
    refine Quiet.plains ⟨rfl, rfl, rfl, rfl, rfl, rfl, rfl, id, rfl, rfl, rfl, rfl, rfl, rfl,
      le_refl _, le_refl _, id, rfl, Nat.le_add_right _ _, fun hbound => ?_⟩
    change w.runtime.stdinOffset + s.total ≤ w.runtime.stdin.length
    omega

theorem plains_fdRead (fd iovsPtr iovsLen nreadPtr : Int) :
    Plains w (w.fdRead mem fd iovsPtr iovsLen nreadPtr).1 := by
  unfold fdRead fdReadPipe fdReadStdio readOpenFile
  repeat' split
  all_goals first
    | exact .refl
    | exact w.plains_readStdin ..
    | exact (w.quiet_setOffset _ _).plains
    | exact (Plain.pipeBytes w _ _ fun h =>
        (List.length_drop.trans_le (Nat.sub_le _ _)).trans h).plains

theorem plains_fdFilestatSetSize (fd size : Int) : Plains w (w.fdFilestatSetSize fd size).1 := by
  unfold fdFilestatSetSize
  split
  · exact .refl
  next file hfile =>
    split
    · exact .refl
    split
    · exact .refl
    next hcan =>
      rw [Bool.not_eq_false, OpenFile.canResizeFile, Bool.and_eq_true] at hcan
      split
      · exact .refl
      unfold resizeDescriptor
      split
      next record hrecord => exact w.plains_resizeOpenFile hfile hrecord hcan.1 _
      · exact .refl

theorem plains_fdAllocate (fd offset length : Int) :
    Plains w (w.fdAllocate fd offset length).1 := by
  unfold fdAllocate
  split
  · exact .refl
  next file hfile =>
    split
    · exact .refl
    split
    · exact .refl
    next hcan =>
      rw [Bool.not_eq_false, OpenFile.canAllocateFile, Bool.and_eq_true] at hcan
      split
      · exact .refl
      · exact .refl
      · unfold growDescriptor
        split
        next record hrecord =>
          split
          · exact w.plains_resizeOpenFile hfile hrecord hcan.1 _
          · exact .refl
        · exact .refl

/-! ### Child commands -/

theorem plains_processExecInputBytes (fd : Int) : Plains w (w.processExecInputBytes fd) := by
  unfold processExecInputBytes
  repeat' split
  all_goals first
    | exact .refl
    | exact (Plain.pipeBytes w _ [] fun _ => Nat.zero_le _).plains
    | exact (w.quiet_setOffset _ _).plains

theorem plains_writeBytesToPipe (direction : Direction) (pipe : ℕ) (bytes : Bytes) :
    Plains w (w.writeBytesToPipe direction pipe bytes) := by
  unfold writeBytesToPipe
  split
  next h => exact (Plain.pipeBytes w pipe _ fun _ => List.length_append.trans_le h.2.2).plains
  · exact .refl

theorem plains_writeBytesToFd (fd : Int) (bytes : Bytes) :
    Plains w (w.writeBytesToFd fd bytes) := by
  unfold writeBytesToFd
  split
  · split
    · exact (w.quiet_writeStdio _ _).plains
    · exact .refl
  next file hfile =>
    split
    · exact w.plains_writeBytesToPipe _ _ _
    · exact (w.quiet_writeStdio _ _).plains
    next record writable offset hkind =>
      have hrecord : file.record? = some record := by simp [OpenFile.record?, hkind]
      split
      next hcan =>
        exact w.plains_writeOpenFile hfile hrecord (writable_of_canWriteFile (by simp [hcan])) _ _
      · exact .refl
    · exact .refl

/-! ### Path calls -/

theorem plains_openDescriptor {w : World} (offset : ℕ) (h : w.Opens file)
    (hoffset : offset? file = some w.host.offsets.next) :
    Plains w ((w.allocOffset offset).openDescriptor file).1 :=
  (Plain.opened offset h hoffset).plains

/-- The canonical bases do not depend on what a quiet effect changes. -/
theorem CanonicalBases.of_quiet {w : World} (h : w.CanonicalBases) (hq : Quiet w w') :
    w'.CanonicalBases := by
  refine ⟨hq.cwd h.cwd, fun fd file path hfile => ?_⟩
  exact h.openFile fd file path (by rwa [World.openFile, ← hq.openFiles])

theorem plains_openDirectoryDescriptor (mount : Option MountName) (rights inheriting : Rights)
    (fdflags : Flags) (hpath : w.CanonicalBases → CanonicalPath path) :
    Plains w (w.openDirectoryDescriptor path mount rights inheriting fdflags).1 :=
  plains_openDescriptor 0 (.directory hpath) rfl

section

variable (requestedRights rightsInheriting : Rights) (fdflags : Flags)
  (hpath : w.CanonicalBases → CanonicalPath path)
include hpath

theorem plains_openPackageRootDirectory :
    Plains w (w.openPackageRootDirectory path requestedRights rightsInheriting fdflags).1 := by
  unfold openPackageRootDirectory
  repeat' split
  all_goals first
    | exact .refl
    | exact w.plains_openDirectoryDescriptor _ _ _ _ hpath

theorem plains_openScratchDirectory :
    Plains w (w.openScratchDirectory path requestedRights rightsInheriting fdflags).1 := by
  unfold openScratchDirectory
  repeat' split
  all_goals first
    | exact .refl
    | exact w.plains_openDirectoryDescriptor _ _ _ _ hpath

theorem plains_openWorkspaceDirectory :
    Plains w (w.openWorkspaceDirectory path requestedRights rightsInheriting fdflags).1 := by
  unfold openWorkspaceDirectory
  repeat' split
  all_goals first
    | exact .refl
    | exact w.plains_openDirectoryDescriptor _ _ _ _ hpath

theorem plains_openReadOnlyWorkspaceDirectory :
    Plains w (w.openReadOnlyWorkspaceDirectory path requestedRights rightsInheriting
      fdflags).1 := by
  unfold openReadOnlyWorkspaceDirectory
  repeat' split
  all_goals first
    | exact .refl
    | exact w.plains_openDirectoryDescriptor _ _ _ _ hpath

end

/-- The base directories of the calls are canonical. -/
theorem canonicalPath_basePath {w : World} (h : w.CanonicalBases)
    (hbase : w.workspaceBasePath fd = some base ∨ w.scratchBasePath fd = some base ∨
      w.packageRootBasePath fd = some base) : CanonicalPath base := by
  unfold workspaceBasePath scratchBasePath packageRootBasePath at hbase
  rcases hbase with hbase | hbase | hbase
  all_goals
    split at hbase
    · exact .inl (Option.some.inj hbase).symm
    split at hbase
    next file hfile =>
      split at hbase
      · exact h.openFile fd file base hfile hbase
      · cases hbase
    · cases hbase

theorem canonicalPath_workspaceCwdBasePath {w : World} (h : w.CanonicalBases)
    (hbase : w.workspaceCwdBasePathForPathRequest fd path = some base) : CanonicalPath base := by
  unfold workspaceCwdBasePathForPathRequest at hbase
  split at hbase
  · cases hbase
  split at hbase
  · exact .inl (Option.some.inj hbase).symm
  split at hbase
  · cases hbase
  · exact canonicalPath_of_mountedRelativePath h.cwd hbase

theorem mutableWorkspaceBasePath_eq_some {w : World} (h : w.mutableWorkspaceBasePath fd = some base)
    : w.writable = true ∧ w.workspaceBasePath fd = some base := by
  unfold mutableWorkspaceBasePath at h
  split at h
  next hw => exact ⟨hw, h⟩
  · cases h

theorem canonicalPath_mutableBase {w : World} (h : w.CanonicalBases)
    (hbase : w.mutableBase fd path = .ok (mount, base)) : CanonicalPath base := by
  unfold mutableBase at hbase
  split at hbase
  next b hb =>
    obtain ⟨-, rfl⟩ := Prod.mk.inj (Except.ok.inj hbase)
    unfold mutableWorkspaceBasePathForPathRequest at hb
    split at hb
    · unfold workspaceBasePathForPathRequest at hb
      split at hb
      next b' hb' =>
        obtain rfl := Option.some.inj hb
        exact canonicalPath_basePath h (.inl hb')
      · exact canonicalPath_workspaceCwdBasePath h hb
    · cases hb
  · split at hbase
    next b hb =>
      obtain ⟨-, rfl⟩ := Prod.mk.inj (Except.ok.inj hbase)
      exact canonicalPath_basePath h (.inr <| .inl hb)
    · cases hbase

theorem canonicalPath_openBase {w : World} (h : w.CanonicalBases)
    (hbase : w.openBase fd path = some (mount, base)) : CanonicalPath base := by
  unfold openBase at hbase
  split at hbase
  next b hb =>
    obtain ⟨-, rfl⟩ := Prod.mk.inj (Option.some.inj hbase)
    exact canonicalPath_basePath h (.inl (mutableWorkspaceBasePath_eq_some hb).2)
  · split at hbase
    next b hb =>
      obtain ⟨-, rfl⟩ := Prod.mk.inj (Option.some.inj hbase)
      split at hb
      · exact canonicalPath_workspaceCwdBasePath h hb
      · cases hb
    · obtain ⟨b, hb, heq⟩ := Option.map_eq_some_iff.1 hbase
      obtain ⟨-, rfl⟩ := Prod.mk.inj heq
      exact canonicalPath_basePath h (.inr <| .inl hb)

theorem canonicalPath_resolveIn {w : World} (hbase : CanonicalPath base)
    (h : w.resolveIn mount base path = .ok key) : CanonicalPath key := by
  unfold resolveIn at h
  split at h
  · exact canonicalPath_of_resolveMountedPath hbase h
  · exact canonicalPath_of_resolveMountedPath hbase h

theorem plains_openFileDescriptor {mount : Option MountName} {writable : Bool} {rights : Rights}
    {fdflags : Flags}
    (h : ∀ offset, w.Opens ⟨.file record writable offset, mount, some path, rights, fdflags⟩) :
    Plains w (w.openFileDescriptor path mount record writable rights fdflags).1 :=
  plains_openDescriptor _ (h _) rfl

/-- The result of opening: no edit, or the creation of the file that is then opened. -/
def CreatesOrPlain (w w' : World) (mount : VirtualMount) (key : Text) (oflags : Flags) : Prop :=
  Plains w w' ∨
    (hasFlag oflags oflagsCreat = true ∧
      (w.mountOf mount).Allows (.createFile key w.host.records.next) ∧
      Plains (w.perform mount (.createFile key w.host.records.next)) w')

theorem canonicalBases_of_createFile {w : World} (h : (w.createFile mount path).CanonicalBases) :
    w.CanonicalBases := by
  cases mount with
  | workspace | scratch => exact ⟨h.cwd, h.openFile⟩

/-- A created file is found under its key. -/
theorem get_createFile (mount : VirtualMount) (path : Text) :
    ((w.createFile mount path).mountOf mount).files.get path = some w.host.records.next := by
  cases mount with
  | workspace =>
    simp [createFile, markDirty, markWorkspaceDirty, modifyFiles, allocRecord, setHost, mountOf,
      workspaceMount]
  | scratch => simp [createFile, markDirty, modifyFiles, allocRecord, setHost, mountOf]

theorem mountOf_truncateFile (mount mount' : VirtualMount) (record : ℕ) :
    (w.truncateFile mount record).mountOf mount' = w.mountOf mount' := by
  cases mount <;> cases mount' <;> rfl

theorem effects_openMountedFile (rightsBase : Rights) (fdflags : Flags)
    (hkey : w.CanonicalBases → CanonicalPath key) :
    CreatesOrPlain w
      (w.openMountedFile mount key oflags rightsBase fdflags).1 mount key oflags := by
  unfold openMountedFile
  dsimp only
  split
  · exact .inl .refl
  split
  · exact .inl .refl
  next hcheck =>
    split
    next hnone =>
      split
      · exact .inl .refl
      next hcreate =>
        refine .inr ⟨by simpa using hcreate, ⟨?_, hcheck⟩, ?_⟩
        · exact ((w.mountOf mount).files.has_eq_false_iff key).2 hnone
        · exact plains_openFileDescriptor _ fun offset => .mounted
            (fun h => hkey (canonicalBases_of_createFile h)) (w.get_createFile mount key)
    next record hget =>
      split
      · exact .inl .refl
      refine .inl ?_
      split
      · refine (Plain.truncate hget).plains.trans ?_
        refine plains_openFileDescriptor _ fun offset => .mounted (fun h => hkey ?_) ?_
        · cases mount with
          | workspace | scratch => exact ⟨h.cwd, h.openFile⟩
        · rw [← hget, ← w.mountOf_truncateFile mount mount record]
      · exact plains_openFileDescriptor _ fun offset => .mounted hkey hget

section

variable (rightsBase rightsInheriting : Rights) (fdflags : Flags)

theorem effects_openScratchFile (hbase : w.CanonicalBases → CanonicalPath base) :
    Plains w (w.openScratchFile base path oflags rightsBase rightsInheriting fdflags).1 ∨
      ∃ key, w.resolveIn .scratch base path = .ok key ∧
        CreatesOrPlain w (w.openScratchFile base path oflags rightsBase rightsInheriting fdflags).1
          .scratch key oflags := by
  unfold openScratchFile
  split
  · exact .inl .refl
  split
  · exact .inl .refl
  next key hkey =>
    have hcanonical : w.CanonicalBases → CanonicalPath key := fun h =>
      canonicalPath_of_resolveMountedPath (hbase h) hkey
    split
    · exact .inl (w.plains_openScratchDirectory _ _ _ hcanonical)
    · exact .inr ⟨key, hkey, w.effects_openMountedFile oflags rightsBase fdflags hcanonical⟩

theorem effects_openWorkspaceFile (hbase : w.CanonicalBases → CanonicalPath base) :
    Plains w (w.openWorkspaceFile base path oflags rightsBase rightsInheriting fdflags).1 ∨
      ∃ key, w.resolveIn .workspace base path = .ok key ∧
        CreatesOrPlain w
          (w.openWorkspaceFile base path oflags rightsBase rightsInheriting fdflags).1
          .workspace key oflags := by
  unfold openWorkspaceFile
  split
  · exact .inl .refl
  split
  · exact .inl .refl
  next key hkey =>
    have hcanonical : w.CanonicalBases → CanonicalPath key := fun h =>
      canonicalPath_of_resolveMountedPath (hbase h) hkey
    split
    · exact .inl (w.plains_openWorkspaceDirectory _ _ _ hcanonical)
    · exact .inr ⟨key, hkey, w.effects_openMountedFile oflags rightsBase fdflags hcanonical⟩

/-- The part of a path text below a virtual mount is canonical. -/
theorem canonicalPath_rootVirtualMountPath
    (h : rootVirtualMountPath base path = .ok (some (mount, key))) : CanonicalPath key := by
  have hbelow : ∀ {normalized m k : Text}, CanonicalPath normalized → '/' ∉ m → m ≠ [] →
      mountedRelativePath normalized m = some k → CanonicalPath k := by
    intro normalized m k hn hm hne hk
    have hcwd : CanonicalCwd ('/' :: normalized) := ⟨normalized, hn, rfl⟩
    have hk' : mountedRelativePath ('/' :: normalized) ('/' :: m) = some k := by
      simpa [mountedRelativePath] using hk
    exact canonicalPath_of_mountedRelativePath hcwd hk'
  unfold rootVirtualMountPath at h
  split at h
  · cases h
  split at h
  · cases h
  next normalized hnorm =>
    rw [normalizeWasiLookupPath_eq] at hnorm
    have hcanonical := canonicalPath_of_normalizeWasiPath hnorm
    split at h
    next k hk =>
      obtain ⟨-, rfl⟩ := Prod.mk.inj (Option.some.inj (Except.ok.inj h))
      exact hbelow hcanonical (by decide) (by decide) hk
    · split at h
      next k hk =>
        obtain ⟨-, rfl⟩ := Prod.mk.inj (Option.some.inj (Except.ok.inj h))
        exact hbelow hcanonical (by decide) (by decide) hk
      · cases Except.ok.inj h

theorem plains_openVirtualMount (hkey : w.CanonicalBases → CanonicalPath key) :
    Plains w (w.openVirtualMount mount key oflags rightsBase rightsInheriting fdflags).1 := by
  unfold openVirtualMount
  split
  · exact .refl
  split
  · exact .refl
  split
  · split
    · exact w.plains_openWorkspaceDirectory _ _ _ hkey
    · exact w.plains_openReadOnlyWorkspaceDirectory _ _ _ hkey
  · exact w.plains_openScratchDirectory _ _ _ hkey

theorem plains_openPackageRootPath (hbase : w.CanonicalBases → CanonicalPath base) :
    Plains w (w.openPackageRootPath base path oflags rightsBase rightsInheriting fdflags).1 := by
  unfold openPackageRootPath
  split
  · exact .refl
  next mount key hvirtual =>
    exact w.plains_openVirtualMount _ _ _ _ fun _ => canonicalPath_rootVirtualMountPath hvirtual
  · split
    · exact .refl
    next key hkey =>
      have hcanonical : w.CanonicalBases → CanonicalPath key := fun h =>
        canonicalPath_of_resolvePackageRootPath (hbase h) hkey
      split
      · exact w.plains_openPackageRootDirectory _ _ _ hcanonical
      repeat' split
      all_goals first
        | exact .refl
        | (refine plains_openFileDescriptor _ fun offset => .packageRoot hcanonical ?_
           assumption)

theorem plains_openReadOnlyWorkspacePath (hwritable : w.writable = false)
    (hbase : w.CanonicalBases → CanonicalPath base) :
    Plains w (w.openReadOnlyWorkspacePath base path oflags rightsBase rightsInheriting
      fdflags).1 := by
  unfold openReadOnlyWorkspacePath
  split
  · exact .refl
  next key hkey =>
    have hcanonical : w.CanonicalBases → CanonicalPath key := fun h =>
      canonicalPath_of_resolveScratchPath (hbase h) hkey
    split
    · split
      · exact .refl
      · exact w.plains_openReadOnlyWorkspaceDirectory _ _ _ hcanonical
    · repeat' split
      all_goals first
        | exact .refl
        | (refine plains_openFileDescriptor _ fun offset => .readOnly hcanonical hwritable ?_
           assumption)

/-- `path_open` creates the file that it opens, or makes no edit. -/
theorem effects_pathOpen (fd : Int) (dirflags : Flags) (path : Text) :
    Plains w (w.pathOpen fd dirflags path oflags rightsBase rightsInheriting fdflags).1 ∨
      ∃ mount base key, w.openBase fd path = some (mount, base) ∧
        w.resolveIn mount base path = .ok key ∧
        CreatesOrPlain w
          (w.pathOpen fd dirflags path oflags rightsBase rightsInheriting fdflags).1 mount key
          oflags := by
  have helse : w.mutableWorkspaceBasePath fd = none →
      (∀ base, (if w.writable then w.workspaceCwdBasePathForPathRequest fd path else none) =
        some base → hasFlag oflags oflagsCreat = false) →
      Plains w (w.pathOpenElsewhere fd path oflags rightsBase rightsInheriting fdflags).1 ∨
        ∃ mount base key, w.openBase fd path = some (mount, base) ∧
          w.resolveIn mount base path = .ok key ∧
          CreatesOrPlain w
            (w.pathOpenElsewhere fd path oflags rightsBase rightsInheriting fdflags).1 mount key
            oflags := by
    intro hdirect hcwd
    unfold pathOpenElsewhere
    split
    next base hbase =>
      rcases w.effects_openScratchFile oflags rightsBase rightsInheriting fdflags
          fun h => canonicalPath_basePath h (.inr <| .inl hbase) with h | ⟨key, hkey, h⟩
      · exact .inl h
      · cases hc : (if w.writable then w.workspaceCwdBasePathForPathRequest fd path else none) with
        | some b =>
          rcases h with h | ⟨hcreate, -⟩
          · exact .inl h
          · simp [hcwd b hc] at hcreate
        | none =>
          refine .inr ⟨.scratch, base, key, ?_, hkey, h⟩
          simp only [openBase, hdirect, hc, hbase, Option.map_some]
    · split
      next base hbase =>
        exact .inl (w.plains_openPackageRootPath _ _ _ _ fun h =>
          canonicalPath_basePath h (.inr <| .inr hbase))
      · split
        next base hbase =>
          refine .inl (w.plains_openReadOnlyWorkspacePath _ _ _ _ ?_ fun h =>
            canonicalPath_basePath h (.inl hbase))
          by_contra hw
          rw [Bool.not_eq_false] at hw
          simp [mutableWorkspaceBasePath, hw, hbase] at hdirect
        · exact .inl .refl
  unfold pathOpen
  split
  · exact .inl .refl
  split
  next base hbase =>
    rcases w.effects_openWorkspaceFile oflags rightsBase rightsInheriting fdflags fun h =>
        canonicalPath_basePath h (.inl (mutableWorkspaceBasePath_eq_some hbase).2)
      with h | ⟨key, hkey, h⟩
    · exact .inl h
    · exact .inr ⟨.workspace, base, key, by simp only [openBase, hbase], hkey, h⟩
  next hdirect =>
    split
    next hcwd => exact helse hdirect fun base hb => by simp [hcwd] at hb
    next base hcwd =>
      dsimp only
      split
      next hback =>
        refine helse hdirect fun _ _ => ?_
        have hno := hback.2
        simp only [pathOpenRequiresWorkspace, Bool.or_eq_false_iff] at hno
        have hmask := hno.1.1.1
        simp only [hasFlag, mutatingOflags, bne_eq_false_iff_eq] at hmask ⊢
        have hsub : oflagsCreat = (oflagsCreat ||| oflagsExcl ||| oflagsTrunc) &&& oflagsCreat := by
          decide
        rw [hsub, ← BitVec.and_assoc, hmask]
        decide
      · have hbase : w.workspaceCwdBasePathForPathRequest fd path = some base := by
          split at hcwd
          · exact hcwd
          · cases hcwd
        rcases w.effects_openWorkspaceFile oflags rightsBase rightsInheriting fdflags
          fun h => canonicalPath_workspaceCwdBasePath h hbase with h | ⟨key, hkey, h⟩
        · exact .inl h
        · exact .inr ⟨.workspace, base, key, by simp only [openBase, hdirect, hcwd], hkey, h⟩

theorem quiet_pathOpen2 (fd : Int) (dirflags : Flags) (path : Text) (fdFlagsExt : Flags) :
    (w.pathOpen2 fd dirflags path oflags rightsBase rightsInheriting fdflags fdFlagsExt).1 = w ∨
      Quiet (w.pathOpen fd dirflags path oflags rightsBase rightsInheriting fdflags).1
        (w.pathOpen2 fd dirflags path oflags rightsBase rightsInheriting fdflags fdFlagsExt).1 := by
  unfold pathOpen2
  split
  · exact .inl rfl
  split
  next w' openedFd h =>
    rw [h]
    right
    split
    · exact Quiet.refl w'
    · exact quiet_setFdFlagsExt _ _
  next w' errno h =>
    rw [h]
    exact .inr (Quiet.refl w')

end

/-- A rename makes the edit of its kind, or none. -/
theorem effects_renameIn (mount : VirtualMount) (source target : Text) :
    (w.renameIn mount source target).1 = w ∨
      (∃ record, (w.mountOf mount).files.get source = some record ∧
        (w.mountOf mount).Allows (.renameFile source target record) ∧
        (w.renameIn mount source target).1 =
          w.perform mount (.renameFile source target record)) ∨
      ((w.mountOf mount).Allows (.renameDir source target) ∧
        (w.renameIn mount source target).1 = w.perform mount (.renameDir source target)) := by
  unfold renameIn
  split
  · exact .inl rfl
  next hne =>
    split
    · exact .inl rfl
    next hcheck =>
      split
      next record hget => exact .inr (.inl ⟨record, hget, ⟨hne, hcheck⟩, rfl⟩)
      · exact .inl rfl
    next hcheck => exact .inr (.inr ⟨⟨hne, hcheck⟩, rfl⟩)

theorem quiet_chdir (path : Text) : Quiet w (w.chdir path).1 := by
  unfold chdir
  split
  · exact Quiet.refl w
  next absolute hresolve =>
    split
    · exact Quiet.refl w
    · exact Quiet.refl w
    · constructor <;> first
        | rfl
        | exact le_refl _
        | exact fun h => canonicalCwd_of_resolveWasiVirtualPath h hresolve
        | exact id
        | exact ⟨rfl, le_refl _, id⟩

/-- The calls that create, remove or rename an entry. -/
def EditsEntry : Call → Prop
  | .pathCreateDirectory .. | .pathUnlinkFile .. | .pathRemoveDirectory .. | .pathRename .. => True
  | _ => False

/-- Such a call does nothing, or exactly one edit. -/
theorem call_eq_perform (hc : EditsEntry c) :
    w.call c = w ∨ ∃ mount e, w.Edits c mount e ∧ w.call c = w.perform mount e := by
  cases c with
  | pathCreateDirectory =>
    simp only [call, callResult, pathCreateDirectory, withMutablePath]
    split
    · exact .inl rfl
    next mount base hbase =>
      split
      · exact .inl rfl
      next key hkey =>
        unfold createDirectoryIn
        split
        · exact .inl rfl
        next hcheck => exact .inr ⟨mount, _, .createDir hbase hkey hcheck, rfl⟩
  | pathUnlinkFile =>
    simp only [call, callResult, pathUnlinkFile, withMutablePath]
    split
    · exact .inl rfl
    next mount base hbase =>
      split
      · exact .inl rfl
      next key hkey =>
        unfold unlinkFileIn
        split
        · exact .inl rfl
        next hcheck =>
          refine .inr ⟨mount, _, .removeFile hbase hkey hcheck, ?_⟩
          cases mount <;> rfl
  | pathRemoveDirectory =>
    simp only [call, callResult, pathRemoveDirectory, withMutablePath]
    split
    · exact .inl rfl
    next mount base hbase =>
      split
      · exact .inl rfl
      next key hkey =>
        unfold removeDirectoryIn
        split
        · exact .inl rfl
        next hcheck =>
          refine .inr ⟨mount, _, .removeDir hbase hkey hcheck, ?_⟩
          cases mount <;> rfl
  | pathRename =>
    simp only [call, callResult, pathRename]
    split
    next mount source target hkeys =>
      rcases w.effects_renameIn mount source target with heq | ⟨record, hget, hallow, heq⟩ |
        ⟨hallow, heq⟩
      · exact .inl heq
      · exact .inr ⟨mount, _, .renameFile hkeys hget hallow, heq⟩
      · exact .inr ⟨mount, _, .renameDir hkeys hallow, heq⟩
    · exact .inl rfl
  | _ => exact hc.elim

/-- With the checks that accept its edit, such a call succeeds and makes it. -/
theorem callResult_of_edits {e : Mount.Edit ℕ} (hc : EditsEntry c) (h : w.Edits c mount e)
    (mem : Memory) : w.callResult mem c = (w.perform mount e, mem, .ok ()) := by
  cases h with
  | createFile | createFile2 => exact hc.elim
  | createDir hbase hkey hallow =>
    have hcheck : (w.mountOf mount).checkCreateDirectory _ = .ok () := hallow
    simp [callResult, pathCreateDirectory, withMutablePath, hbase, hkey, createDirectoryIn, hcheck,
      pathOutcome, perform]
  | removeFile hbase hkey hallow =>
    have hcheck : (w.mountOf mount).checkUnlinkFile _ = .ok () := hallow
    cases mount <;>
      simp [callResult, pathUnlinkFile, withMutablePath, hbase, hkey, unlinkFileIn, hcheck,
        pathOutcome, perform]
  | removeDir hbase hkey hcheck =>
    cases mount <;>
      simp [callResult, pathRemoveDirectory, withMutablePath, hbase, hkey, removeDirectoryIn,
        hcheck, pathOutcome, perform]
  | renameFile hkeys hget hallow =>
    simp [callResult, pathRename, hkeys, renameIn, hallow.1, hallow.2, hget, pathOutcome, perform]
  | renameDir hkeys hallow =>
    simp [callResult, pathRename, hkeys, renameIn, hallow.1, hallow.2, pathOutcome, perform]

theorem effects_of_editsEntry (hc : EditsEntry c) :
    Plains w (w.call c) ∨
      ∃ mount e, w.Edits c mount e ∧ Plains (w.perform mount e) (w.call c) := by
  rcases w.call_eq_perform hc with heq | ⟨mount, e, he, heq⟩
  · exact .inl (by rw [heq])
  · exact .inr ⟨mount, e, he, by rw [heq]⟩

/-- The inversion theorem of the calls: a call makes plain effects only, or one edit with the
checks that accept it and plain effects after it. -/
theorem call_effects (c : Call) :
    Plains w (w.call c) ∨
      ∃ mount e, w.Edits c mount e ∧ Plains (w.perform mount e) (w.call c) := by
  cases c with
  | fdClose fd => exact .inl (w.plains_fdClose fd)
  | fdRenumber fd target => exact .inl (w.plains_fdRenumber fd target)
  | fdDup => exact .inl (w.plains_duplicateFd ..)
  | fdDup2 => exact .inl (w.plains_duplicateFdTo ..)
  | fdPipe | fdFdstatSetRights =>
    refine .inl ?_
    dsimp only [call, callResult, fdPipe, fdFdstatSetRights]
    repeat' split
    all_goals first
      | exact .refl
      | exact (Plain.piped w).plains
      | exact (Plain.rights _ _ (by assumption)).plains
  | fdRead => exact .inl (w.plains_fdRead ..)
  | fdWrite => exact .inl (w.plains_fdWrite ..)
  | fdPwrite => exact .inl (w.plains_fdPwrite ..)
  | fdPread | fdSeek | fdTell | fdFdflagsSet =>
    refine .inl ?_
    dsimp only [call, callResult, fdPread, fdSeek, fdTell, fdFdflagsSet]
    repeat' split
    all_goals first
      | exact .refl
      | exact (w.quiet_setOffset _ _).plains
      | exact (w.quiet_setFdFlagsExt _).plains
  | fdReaddir => exact .inl .refl
  | fdAllocate => exact .inl (w.plains_fdAllocate ..)
  | fdFilestatSetSize => exact .inl (w.plains_fdFilestatSetSize ..)
  | pathOpen fd dirflags path oflags rightsBase rightsInheriting fdflags =>
    rcases w.effects_pathOpen oflags rightsBase rightsInheriting fdflags fd dirflags path with
      h | ⟨mount, base, key, hbase, hkey, h | ⟨hcreate, hallow, h⟩⟩
    · exact .inl h
    · exact .inl h
    · exact .inr ⟨mount, _, .createFile hbase hkey hcreate hallow, h⟩
  | pathOpen2 fd dirflags path oflags rightsBase rightsInheriting fdflags fdFlagsExt =>
    rcases w.quiet_pathOpen2 oflags rightsBase rightsInheriting fdflags fd dirflags path fdFlagsExt
      with heq | hq
    · refine .inl ?_
      rw [call, callResult, heq]
    · rcases w.effects_pathOpen oflags rightsBase rightsInheriting fdflags fd dirflags path with
        h | ⟨mount, base, key, hbase, hkey, h | ⟨hcreate, hallow, h⟩⟩
      · exact .inl (h.quiet hq)
      · exact .inl (h.quiet hq)
      · exact .inr ⟨mount, _, .createFile2 hbase hkey hcreate hallow, h.quiet hq⟩
  | pathCreateDirectory | pathUnlinkFile | pathRemoveDirectory | pathRename =>
    exact w.effects_of_editsEntry trivial
  | chdir path => exact .inl (w.quiet_chdir path).plains

end

/-! ### What an edit does to the descriptors -/

/-- A descriptor without its path if it is of a kind and names a path. -/
def detached (names : OpenFile → Bool) (path : Text) (file : OpenFile) : OpenFile :=
  if names file = true ∧ file.path = some path then { file with path := none } else file

/-- What an edit does to each descriptor. -/
def follow (w : World) : VirtualMount → Mount.Edit ℕ → OpenFile → OpenFile
  | .workspace, .removeFile path, file =>
      detached (fun file => file.mount = some .workspace && !file.isOpenDirectory) path file
  | .workspace, .removeDir path, file => detached OpenFile.isOpenWorkspaceDirectory path file
  | .workspace, .renameFile _ target record, file =>
      if file.mount = some .workspace then
        followRecord record (w.workspaceMount.files.get target) target file
      else file
  | .scratch, .renameFile _ target record, file =>
      followRecord record (w.runtime.scratch.files.get target) target file
  | .workspace, .renameDir source target, file =>
      if file.mount = some .workspace then
        followPath source target (detached OpenFile.isOpenWorkspaceDirectory target file)
      else file
  | .scratch, .renameDir source target, file =>
      followPath source target (detached OpenFile.isOpenScratchDirectory target file)
  | _, _, file => file

theorem detached_eq (names : OpenFile → Bool) (path : Text) (file : OpenFile) :
    detached names path file = { file with path := (detached names path file).path } := by
  unfold detached
  split <;> rfl

theorem followRecord_eq (record : ℕ) (replaced : Option ℕ) (target : Text) (file : OpenFile) :
    followRecord record replaced target file =
      { file with path := (followRecord record replaced target file).path } := by
  unfold followRecord
  repeat' split
  all_goals rfl

theorem followPath_eq (source target : Text) (file : OpenFile) :
    followPath source target file = { file with path := (followPath source target file).path } := by
  unfold followPath
  repeat' split
  all_goals rfl

/-- An edit changes nothing but the path of a descriptor. -/
theorem follow_eq (w : World) (mount : VirtualMount) (e : Mount.Edit ℕ) (file : OpenFile) :
    w.follow mount e file = { file with path := (w.follow mount e file).path } := by
  cases mount <;> cases e <;> simp only [follow]
  · exact detached_eq _ _ _
  · exact detached_eq _ _ _
  · split
    · exact followRecord_eq _ _ _ _
    · rfl
  · split
    · rw [followPath_eq, detached_eq]
    · rfl
  · exact followRecord_eq _ _ _ _
  · rw [followPath_eq, detached_eq]

theorem kind_follow (w : World) (mount : VirtualMount) (e : Mount.Edit ℕ) (file : OpenFile) :
    (w.follow mount e file).kind = file.kind := by
  rw [follow_eq]

theorem mount_follow (w : World) (mount : VirtualMount) (e : Mount.Edit ℕ) (file : OpenFile) :
    (w.follow mount e file).mount = file.mount := by
  rw [follow_eq]

theorem mapVals_mapVals_congr {f g h : OpenFile → OpenFile} (hfg : ∀ file, g (f file) = h file)
    (openFiles : OrdMap Int OpenFile) :
    (openFiles.mapVals fun _ => f).mapVals (fun _ => g) = openFiles.mapVals fun _ => h := by
  simp [OrdMap.mapVals, Function.comp_def, hfg]

theorem mapVals_self (openFiles : OrdMap Int OpenFile) :
    (openFiles.mapVals fun _ file => file) = openFiles := by
  simp [OrdMap.mapVals]

/-- The table after an edit. -/
theorem openFiles_perform (w : World) (mount : VirtualMount) (e : Mount.Edit ℕ) :
    (w.perform mount e).runtime.openFiles =
      w.runtime.openFiles.mapVals fun _ => w.follow mount e := by
  cases mount with
  | workspace =>
    cases e with
    | renameDir source target =>
      refine mapVals_mapVals_congr (f := detached OpenFile.isOpenWorkspaceDirectory target)
        (g := fun file =>
          if file.mount = some .workspace then followPath source target file else file)
        (h := w.follow .workspace (.renameDir source target)) (fun file => ?_) w.runtime.openFiles
      by_cases hmount : file.mount = some .workspace
      · have hdetached : (detached OpenFile.isOpenWorkspaceDirectory target file).mount =
            some .workspace := by rw [detached_eq, hmount]
        simp only [follow, hmount, hdetached, if_true]
      · have hdetached : detached OpenFile.isOpenWorkspaceDirectory target file = file :=
          if_neg fun h => hmount
            (by simpa using ((Bool.and_eq_true _ _).mp h.1).2)
        simp only [follow, hdetached, hmount, if_false]
    | removeFile | removeDir | renameFile => rfl
    | createFile | createDir => exact (mapVals_self _).symm
  | scratch =>
    cases e with
    | renameDir source target =>
      exact mapVals_mapVals_congr (f := detached OpenFile.isOpenScratchDirectory target)
        (g := followPath source target) (h := w.follow .scratch (.renameDir source target))
        (fun file => rfl) w.runtime.openFiles
    | renameFile => rfl
    | removeFile | removeDir | createFile | createDir => exact (mapVals_self _).symm

/-- An edit leaves everything alone but records, the maps of its mount, the dirty mark and the
paths of descriptors. -/
structure Framed (w w' : World) : Prop where
  pipes : w'.host.pipes = w.host.pipes
  packageRoot : w'.host.packageRoot = w.host.packageRoot
  writable : w'.host.workspace.writable = w.host.workspace.writable
  cwd : w'.runtime.cwd = w.runtime.cwd
  packageRootFd : w'.runtime.packageRootFd = w.runtime.packageRootFd
  nextFileFd : w'.runtime.nextFileFd = w.runtime.nextFileFd

theorem framed_perform (w : World) (mount : VirtualMount) (e : Mount.Edit ℕ) :
    Framed w (w.perform mount e) := by
  cases mount <;> cases e <;> constructor <;> rfl

/-! ### Refinement of the abstract mounts -/

/-- Plain effects leave both mounts alone. -/
theorem Plain.mountOf (h : Plain w w') (mount : VirtualMount) :
    w'.mountOf mount = w.mountOf mount := by
  cases h with
  | quiet hq =>
    cases mount with
    | workspace =>
      simp only [World.mountOf, workspaceMount, hq.fileMaps, hq.dirSets, hq.runtimeFiles,
        hq.runtimeDirs]
    | scratch => simp only [World.mountOf, hq.scratch]
  | pipeBytes | content | adopt => cases mount <;> rfl
  | truncate => exact w.mountOf_truncateFile _ mount _
  | opened | closed => cases mount <;> rfl
  | moved =>
    unfold moveDescriptor closeReplaced
    split <;> cases mount <;> rfl
  | duplicated | preopened =>
    unfold placeDuplicate closeReplaced
    split <;> cases mount <;> rfl
  | piped | rights => cases mount <;> rfl

theorem Plains.mountOf (h : Plains w w') (mount : VirtualMount) :
    w'.mountOf mount = w.mountOf mount := by
  induction h with
  | refl => rfl
  | tail _ hstep ih => rw [hstep.mountOf, ih]

/-- An edit turns its mount into the edited mount. -/
theorem mountOf_perform (h : w.Edits c mount e) :
    (w.perform mount e).mountOf mount = (w.mountOf mount).apply e := by
  cases h <;> cases mount <;>
    simp [perform, createFile, allocRecord, modifyFiles, modifyDirs, markDirty,
      markWorkspaceDirty, detachOpenWorkspaceFile, detachOpenWorkspaceDirectory, detach,
      detachOpenScratchDirectory, mapOpenFiles, setOpenFiles, setHost, renameFileIn,
      renameWorkspaceFile, renameScratchFile, renameDirectoryIn, renameWorkspaceDirectory,
      renameScratchDirectory, repathRecords, replaceMount, dropReplacedPath, modifyRecord,
      World.mountOf, workspaceMount, Mount.apply]
  exact Heap.get_alloc_next _ _

/-- The other mount stays as it is. -/
theorem mountOf_perform_of_ne {other : VirtualMount} (h : w.Edits c mount e) (hne : other ≠ mount) :
    (w.perform mount e).mountOf other = w.mountOf other := by
  cases h <;> cases mount <;> cases other <;> first | exact absurd rfl hne | rfl

/-- The checks of an edit accept it on the mount. -/
theorem Edits.allows (h : w.Edits c mount e) : (w.mountOf mount).Allows e := by
  cases h with
  | createFile _ _ _ hallow | createFile2 _ _ _ hallow | createDir _ _ hallow
  | removeFile _ _ hallow => exact hallow
  | removeDir hbase hkey hallow => exact ⟨_, hallow⟩
  | renameFile _ _ hallow | renameDir _ hallow => exact hallow

/-- The calls refine the abstract mounts: a call leaves both mounts as they are, or makes one
allowed edit of one of them. -/
theorem call_refines (w : World) (c : Call) :
    (∀ mount, (w.call c).mountOf mount = w.mountOf mount) ∨
      ∃ mount e, w.Edits c mount e ∧ (w.mountOf mount).Allows e ∧
        (w.call c).mountOf mount = (w.mountOf mount).apply e ∧
        ∀ other ≠ mount, (w.call c).mountOf other = w.mountOf other := by
  rcases w.call_effects c with h | ⟨mount, e, he, h⟩
  · exact .inl h.mountOf
  · refine .inr ⟨mount, e, he, he.allows, ?_, fun other hne => ?_⟩
    · rw [h.mountOf, mountOf_perform he]
    · rw [h.mountOf, mountOf_perform_of_ne he hne]

end World

end WasmHost

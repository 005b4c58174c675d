import WasmHost.Lib.Heap
import WasmHost.Wasi.Mount
import WasmHost.Wasi.Rights

/-!
# The state of the host

Everything a `WasiPreview1Runtime` can see. Objects that several places can refer to live in
heaps of `Host`: file records (shared by a mount and the descriptors opened on it), the maps and
sets of the workspace (shared by the workspace record and the runtimes that mounted it), pipes,
and file offsets (shared by duplicates of one descriptor). What a runtime owns alone is stored in
`Runtime` by value.

* `World.fdStat`: what a descriptor number denotes, whether it is in the table or built in.
* `World.fdStat_firstFreeFd`: the search for a free number ends at one.
-/

namespace WasmHost

/-- A file object. `path` is `none` once its name has been taken by another file. -/
structure FileRecord where
  bytes : Bytes
  path : Option Text
  mtimeMs : Option ℕ
  /-- The file comes from the package and not from the workspace store. -/
  fallback : Bool
  deriving DecidableEq, Repr

/-- An empty record. -/
instance : Inhabited FileRecord := ⟨⟨[], none, none, false⟩⟩

/-- A pipe object with its reference counts. -/
structure Pipe where
  bytes : Bytes
  readers : ℕ
  writers : ℕ
  deriving DecidableEq, Repr, Inhabited

/-- The two ends of a pipe. -/
inductive Direction
  | read | write
  deriving DecidableEq, Repr

/-- The `mount` field of a descriptor. -/
inductive MountName
  | workspace | scratch | packageRoot
  deriving DecidableEq, Repr

/-- The `kind` of a descriptor with the fields of that kind. `offset` is the address of the
offset, which duplicates share. -/
inductive OpenKind
  | stdio (stdioFd : Int)
  | pipe (direction : Direction) (pipe : ℕ)
  | directory (inheriting : Rights) (preopenPath : Option Text) (offset : ℕ)
  | file (record : ℕ) (writable : Bool) (offset : ℕ)
  deriving DecidableEq, Repr

/-- An open descriptor. `path` is `none` when it is absent or has been detached. -/
structure OpenFile where
  kind : OpenKind
  mount : Option MountName
  path : Option Text
  rights : Rights
  fdflags : Flags
  deriving DecidableEq, Repr

namespace OpenFile

/-- The file is a directory. -/
def isOpenDirectory (file : OpenFile) : Bool :=
  match file.kind with
  | .directory .. => true
  | _ => false

/-- The file is a standard stream. -/
def isOpenStdio (file : OpenFile) : Bool :=
  match file.kind with
  | .stdio .. => true
  | _ => false

/-- The file is an end of a pipe. -/
def isOpenPipe (file : OpenFile) : Bool :=
  match file.kind with
  | .pipe .. => true
  | _ => false

def isOpenScratchDirectory (file : OpenFile) : Bool :=
  file.isOpenDirectory && (file.mount = none || file.mount = some .scratch)

def isOpenWorkspaceDirectory (file : OpenFile) : Bool :=
  file.isOpenDirectory && file.mount = some .workspace

def isOpenPackageRootDirectory (file : OpenFile) : Bool :=
  file.isOpenDirectory && file.mount = some .packageRoot

/-- The record of a descriptor of a regular file. -/
def record? (file : OpenFile) : Option ℕ :=
  match file.kind with
  | .file record _ _ => some record
  | _ => none

/-- The descriptor is one of the given end of the given pipe. -/
def isEnd (file : OpenFile) (direction : Direction) (pipe : ℕ) : Bool :=
  file.kind = .pipe direction pipe

end OpenFile

/-- The workspace record, which every runtime of a run shares. -/
structure Workspace where
  /-- The address of the map of files. -/
  files : ℕ
  /-- The address of the set of directories. -/
  dirs : ℕ
  dirty : Bool
  writable : Bool
  deriving Repr

/-- The read-only package root. -/
structure PackageRoot where
  mount : Mount ℕ
  preopen : Bool

/-- The objects that runtimes share. -/
structure Host where
  records : Heap FileRecord
  fileMaps : Heap (OrdMap Text ℕ)
  dirSets : Heap (OrdSet Text)
  pipes : Heap Pipe
  offsets : Heap ℕ
  workspace : Workspace
  packageRoot : PackageRoot
  /-- The chunks written to standard output, in order. -/
  stdout : List Bytes
  /-- The chunks written to standard error, in order. -/
  stderr : List Bytes

/-- What a `WasiPreview1Runtime` owns. -/
structure Runtime where
  cwd : Text
  /-- The address of the map it takes for the workspace files. -/
  files : ℕ
  /-- The address of the set it takes for the workspace directories. -/
  workspaceDirs : ℕ
  packageRootFd : Option Int
  fdFlagsExt : OrdMap Int Flags
  openFiles : OrdMap Int OpenFile
  scratch : Mount ℕ
  nextFileFd : Int
  stdin : Bytes
  stdinOffset : ℕ

/-- A runtime with the objects it can reach. -/
structure World where
  host : Host
  runtime : Runtime

def stdinFd : Int := 0

def stdoutFd : Int := 1

def stderrFd : Int := 2

def workspaceFd : Int := 3

def tmpFd : Int := 4

def firstFileFd : Int := 5

def isDynamicFileFdNumber (fd : Int) : Bool := firstFileFd ≤ fd

def isStdioFd (fd : Int) : Bool := fd = stdinFd || fd = stdoutFd || fd = stderrFd

/-- `Number(value) >>> 0`. -/
def toUint32 (value : Int) : Int := value % 2 ^ 32

/-- The signed number as which a 32-bit number of the guest arrives. -/
def toI32 (value : ℕ) : Int := if value < 2 ^ 31 then value else value - 2 ^ 32

variable {value : ℕ}

theorem toI32_of_lt (h : value < 2 ^ 31) : toI32 value = value := if_pos h

theorem toI32_neg (h : 2 ^ 31 ≤ value) (hlt : value < 2 ^ 32) : toI32 value < 0 := by
  rw [toI32, if_neg (Nat.not_lt.2 h)]
  omega

theorem toUint32_toI32 (h : value < 2 ^ 32) : toUint32 (toI32 value) = value := by
  unfold toUint32 toI32
  split <;> omega

/-- The rights of a standard stream. -/
def stdioRights (fd : Int) : Option Rights :=
  if fd = stdinFd then some stdinRights
  else if fd = stdoutFd ∨ fd = stderrFd then some stdoutRights
  else none

/-- What the host reports about a descriptor. -/
structure FdStat where
  filetype : Filetype
  inheriting : Rights
  rights : Rights
  size : ℕ
  deriving DecidableEq, Repr

namespace World

variable (w : World)

def openFile (fd : Int) : Option OpenFile := w.runtime.openFiles.get fd

/-- The workspace as the runtime sees it. -/
def workspaceMount : Mount ℕ where
  files := w.host.fileMaps.get w.runtime.files
  dirs := w.host.dirSets.get w.runtime.workspaceDirs

def writable : Bool := w.host.workspace.writable

/-- The part of `fdStat` about descriptors in the table. -/
def openFileStat (file : OpenFile) : FdStat :=
  match file.kind with
  | .stdio _ => ⟨.characterDevice, 0, file.rights, 0⟩
  | .pipe .read pipe => ⟨.characterDevice, 0, file.rights, (w.host.pipes.get pipe).bytes.length⟩
  | .pipe .write _ => ⟨.characterDevice, 0, file.rights, 0⟩
  | .directory inheriting _ _ => ⟨.directory, inheriting, file.rights, 0⟩
  | .file record _ _ =>
      ⟨.regularFile, 0, file.rights, (w.host.records.get record).bytes.length⟩

/-- The part of `fdStat` about the numbers that denote something without being in the table. -/
def builtinStat (fd : Int) : Option FdStat :=
  match stdioRights fd with
  | some rights => some ⟨.characterDevice, 0, rights, 0⟩
  | none =>
      if fd = workspaceFd then
        some ⟨.directory, if w.writable then scratchFileRights else regularFileRights,
          if w.writable then writableWorkspaceRights else workspaceRights, 0⟩
      else if fd = tmpFd then some ⟨.directory, scratchFileRights, tmpRights, 0⟩
      else if some fd = w.runtime.packageRootFd then
        some ⟨.directory, regularFileRights, workspaceRights, 0⟩
      else none

/-- The status of a descriptor. -/
def fdStat (fd : Int) : Option FdStat :=
  match w.openFile fd with
  | some file => some (w.openFileStat file)
  | none => w.builtinStat fd

/-- `fdStat(fd) ? errno : EBADF`. -/
def knownFd (fd : Int) (errno : Errno) : Errno :=
  if (w.fdStat fd).isSome then errno else .badf

/-- Replace the descriptor table. -/
def setOpenFiles (openFiles : OrdMap Int OpenFile) : World :=
  { w with runtime := { w.runtime with openFiles := openFiles } }

/-- Only a writable workspace becomes dirty. -/
def markWorkspaceDirty : World :=
  { w with
    host :=
      { w.host with
        workspace := { w.host.workspace with dirty := w.writable || w.host.workspace.dirty } } }

/-- Put a new descriptor at `nextFileFd`. -/
def pushOpenFile (file : OpenFile) : World where
  host := w.host
  runtime :=
    { w.runtime with
      openFiles := w.runtime.openFiles.set w.runtime.nextFileFd file
      nextFileFd := w.runtime.nextFileFd + 1 }

/-- Allocate a file offset. Its address is `w.host.offsets.next`. -/
def allocOffset (offset : ℕ) : World :=
  { w with host := { w.host with offsets := w.host.offsets.alloc offset } }

/-- The loop of `allocateDynamicFileFd`. -/
def firstFreeFd : ℕ → Int → Int
  | 0, fd => fd
  | fuel + 1, fd => if (w.fdStat fd).isSome then firstFreeFd fuel (fd + 1) else fd

/-- The first free number. -/
def allocateDynamicFileFd (minResultFd : Int) : World × Int :=
  let fd := w.firstFreeFd (w.runtime.openFiles.entries.length + 2)
    (max firstFileFd (toUint32 minResultFd))
  ({ w with
      runtime :=
        { w.runtime with
          nextFileFd := if w.runtime.nextFileFd ≤ fd then fd + 1 else w.runtime.nextFileFd } },
    fd)

/-! ### Descriptor numbers -/

variable {fd : Int}

theorem fdStat_of_openFile {file : OpenFile} (h : w.openFile fd = some file) :
    w.fdStat fd = some (w.openFileStat file) := by
  simp [fdStat, h]

theorem fdStat_of_openFile_none (h : w.openFile fd = none) : w.fdStat fd = w.builtinStat fd := by
  simp [fdStat, h]

theorem openFile_eq_none_of_fdStat (h : w.fdStat fd = none) : w.openFile fd = none := by
  cases hf : w.openFile fd with
  | none => rfl
  | some => simp [w.fdStat_of_openFile hf] at h

/-- The rights of a descriptor in the table are the ones stored there. -/
@[simp]
theorem rights_openFileStat (file : OpenFile) : (w.openFileStat file).rights = file.rights := by
  unfold openFileStat
  split <;> rfl

/-- A busy number from `firstFileFd` on is in the table or the package root. -/
theorem busy_iff (hfd : firstFileFd ≤ fd) :
    (w.fdStat fd).isSome = true ↔
      fd ∈ w.runtime.openFiles.keys ∨ some fd = w.runtime.packageRootFd := by
  have hne : fd ≠ stdinFd ∧ fd ≠ stdoutFd ∧ fd ≠ stderrFd ∧ fd ≠ workspaceFd ∧ fd ≠ tmpFd := by
    simp only [firstFileFd, stdinFd, stdoutFd, stderrFd, workspaceFd, tmpFd] at *
    omega
  rw [OrdMap.mem_keys]
  cases hf : w.openFile fd with
  | some =>
    have hhas : w.runtime.openFiles.has fd = true := OrdMap.has_of_get hf
    simp [w.fdStat_of_openFile hf, hhas]
  | none =>
    have hhas : w.runtime.openFiles.has fd = false :=
      (w.runtime.openFiles.has_eq_false_iff fd).2 hf
    rw [w.fdStat_of_openFile_none hf]
    simp only [builtinStat, stdioRights, hne, hhas]
    by_cases hp : some fd = w.runtime.packageRootFd <;> simp [hp]

theorem firstFreeFd_spec (fuel : ℕ) (start : Int) :
    start ≤ w.firstFreeFd fuel start ∧
      ((w.fdStat (w.firstFreeFd fuel start)).isSome = true →
        ∀ i < fuel, (w.fdStat (start + i)).isSome = true) := by
  induction fuel generalizing start with
  | zero => simp [firstFreeFd]
  | succ fuel ih =>
    unfold firstFreeFd
    split
    next hbusy =>
      obtain ⟨hle, hall⟩ := ih (start + 1)
      refine ⟨by omega, fun h i hi => ?_⟩
      cases i with
      | zero => simpa using hbusy
      | succ i =>
        have := hall h i (by omega)
        rwa [show start + ((i + 1 : ℕ) : Int) = start + 1 + i by push_cast; omega]
    next hfree => exact ⟨le_refl _, fun h => absurd h hfree⟩

/-- The search for a free number ends at a free number. -/
theorem fdStat_firstFreeFd {start : Int} (hstart : firstFileFd ≤ start) :
    w.fdStat (w.firstFreeFd (w.runtime.openFiles.entries.length + 2) start) = none := by
  by_contra hbusy
  have hall := (w.firstFreeFd_spec _ start).2 (Option.isSome_iff_ne_none.2 hbusy)
  set n := w.runtime.openFiles.entries.length + 2 with hn
  let candidates : List Int := (List.range n).map fun i : ℕ => start + (i : Int)
  let busy : List Int := w.runtime.openFiles.keys ++ w.runtime.packageRootFd.toList
  have hnodup : candidates.Nodup := by
    refine List.Nodup.map (fun i j h => ?_) List.nodup_range
    have heq : start + (i : Int) = start + (j : Int) := h
    omega
  have hsub : candidates ⊆ busy := by
    intro fd hfd
    obtain ⟨i, hi, rfl⟩ := List.mem_map.1 hfd
    have hge : firstFileFd ≤ start + (i : Int) := by omega
    rcases (w.busy_iff hge).1 (hall i (List.mem_range.1 hi)) with h | h
    · exact List.mem_append_left _ h
    · exact List.mem_append_right _ (by simp [← h])
  have hle := (hnodup.subperm hsub).length_le
  have hroot : w.runtime.packageRootFd.toList.length ≤ 1 := by
    cases w.runtime.packageRootFd <;> simp
  simp only [candidates, busy, List.length_map, List.length_range, List.length_append,
    OrdMap.keys] at hle
  omega

/-- An allocated number is not in the table. -/
theorem openFile_allocateDynamicFileFd (minResultFd : Int) :
    w.openFile (w.allocateDynamicFileFd minResultFd).2 = none :=
  w.openFile_eq_none_of_fdStat (w.fdStat_firstFreeFd (le_max_left _ _))

end World

end WasmHost

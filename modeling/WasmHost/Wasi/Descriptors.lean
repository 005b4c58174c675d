import WasmHost.Lib.Run
import WasmHost.Wasi.Memory

/-!
# Descriptor calls

`fd_close`, `fd_renumber`, `fd_dup`, `fd_dup2`, `fd_pipe`, `fd_fdstat_set_rights`,
`fd_fdflags_set`, and what a copied-memory fork and an exit do to the descriptor tables. The
reference counts of pipes are kept by hand: `retainOpenFile` and `closeOpenFile` are the only
places that change them, next to `fdPipe`, which makes the pipe.
-/

namespace WasmHost

namespace Pipe

/-- One more end of a pipe is open. -/
def addEnd (pipe : Pipe) : Direction → Pipe
  | .read => { pipe with readers := pipe.readers + 1 }
  | .write => { pipe with writers := pipe.writers + 1 }

/-- The counts do not go below zero. -/
def removeEnd (pipe : Pipe) : Direction → Pipe
  | .read => { pipe with readers := pipe.readers - 1 }
  | .write => { pipe with writers := pipe.writers - 1 }

/-- The reference count of an end. -/
def ends (pipe : Pipe) : Direction → ℕ
  | .read => pipe.readers
  | .write => pipe.writers

end Pipe

namespace Host

variable (host : Host)

/-- Changes a pipe. -/
def modifyPipe (pipe : ℕ) (f : Pipe → Pipe) : Host :=
  { host with pipes := host.pipes.modify pipe f }

/-- Counts a copy of a pipe end. -/
def retainOpenFile (file : OpenFile) : Host :=
  { host with
    pipes :=
      match file.kind with
      | .pipe direction pipe => host.pipes.modify pipe fun p => p.addEnd direction
      | _ => host.pipes }

/-- Counts an end of a pipe out. -/
def closeOpenFile (file : OpenFile) : Host :=
  { host with
    pipes :=
      match file.kind with
      | .pipe direction pipe => host.pipes.modify pipe fun p => p.removeEnd direction
      | _ => host.pipes }

end Host

namespace World

variable (w : World)

/-- Stores an open file. -/
def putOpenFile (fd : Int) (file : OpenFile) : World :=
  w.setOpenFiles (w.runtime.openFiles.set fd file)

def dropOpenFile (fd : Int) : World := w.setOpenFiles (w.runtime.openFiles.delete fd)

/-- Sets the extended flags. -/
def setFdFlagsExt (fdFlagsExt : OrdMap Int Flags) : World :=
  { w with runtime := { w.runtime with fdFlagsExt := fdFlagsExt } }

def setHost (host : Host) : World := { w with host := host }

def retainOpenFile (file : OpenFile) : World := w.setHost (w.host.retainOpenFile file)

def closeOpenFile (file : OpenFile) : World := w.setHost (w.host.closeOpenFile file)

/-- Close the descriptor at a number that is about to be replaced. -/
def closeReplaced (fd : Int) : World :=
  w.setHost
    (match w.openFile fd with
      | some replaced => w.host.closeOpenFile replaced
      | none => w.host)

/-- `target >= nextFileFd` moves `nextFileFd` past `target`. -/
def reserveFd (target : Int) : World :=
  { w with
    runtime :=
      { w.runtime with
        nextFileFd :=
          if isDynamicFileFdNumber target = true ∧ w.runtime.nextFileFd ≤ target then target + 1
          else w.runtime.nextFileFd } }

/-- The import `fd_close`. -/
def fdClose (fd : Int) : World × Except Failure Unit :=
  match w.openFile fd with
  | some file =>
      (((w.closeOpenFile file).dropOpenFile fd).setFdFlagsExt (w.runtime.fdFlagsExt.delete fd),
        .ok ())
  | none => (w, .error (.errno .badf))

/-- Only workspace descriptors, pipes and standard streams may take a standard number. -/
def mayReplaceStdio (file : OpenFile) : Bool :=
  file.mount = some .workspace || file.isOpenPipe || file.isOpenStdio

/-- The import `fd_renumber`. -/
def fdRenumber (fd target : Int) : World × Except Failure Unit :=
  match w.openFile fd with
  | none => (w, .error (.errno (w.knownFd fd .notcapable)))
  | some file =>
      if isDynamicFileFdNumber target = false ∧ isStdioFd target = false then
        (w, .error (.errno .notcapable))
      else if isStdioFd target = true ∧ mayReplaceStdio file = false then
        (w, .error (.errno .notcapable))
      else if fd = target then (w, .ok ())
      else
        let flags := (w.runtime.fdFlagsExt.delete fd).delete target
        ((((w.closeReplaced target).dropOpenFile fd).putOpenFile target file |>.setFdFlagsExt
            (match w.runtime.fdFlagsExt.get fd with
              | some fdFlagsExt => flags.set target fdFlagsExt
              | none => flags)).reserveFd target,
          .ok ())

/-- A duplicate shares its offset with the original. -/
def duplicateOpenFileDescriptor (file : OpenFile) : OpenFile := file

/-- The descriptor that stands for a preopened directory once it is duplicated. -/
def preopenDuplicate (stat : FdStat) (preopenPath : Text) (mount : MountName) : OpenFile where
  kind := .directory stat.inheriting (some preopenPath) w.host.offsets.next
  mount := some mount
  path := some []
  rights := stat.rights
  fdflags := 0

/-- A copy of an open file. -/
def duplicateOpenFileForFd (fd : Int) : World × Option OpenFile :=
  match w.openFile fd with
  | some file => (w, some (duplicateOpenFileDescriptor file))
  | none =>
      match w.fdStat fd with
      | none => (w, none)
      | some stat =>
          match stdioRights fd with
          | some rights =>
              (w, some ⟨.stdio fd, none, none, rights, 0⟩)
          | none =>
              if fd = workspaceFd then
                (w.allocOffset 0, some (w.preopenDuplicate stat workspacePreopenPath .workspace))
              else if fd = tmpFd then
                (w.allocOffset 0, some (w.preopenDuplicate stat tmpPreopenPath .scratch))
              else if some fd = w.runtime.packageRootFd then
                (w.allocOffset 0,
                  some (w.preopenDuplicate stat packageRootPreopenPath .packageRoot))
              else (w, none)

/-- Set or clear the extended flags of a descriptor. -/
def writeFdFlagsExt (fd : Int) (fdFlagsExt : Flags) : World :=
  w.setFdFlagsExt
    (if fdFlagsExt = 0 then w.runtime.fdFlagsExt.delete fd
     else w.runtime.fdFlagsExt.set fd fdFlagsExt)

/-- The result of a descriptor call that stores a number for the guest. -/
abbrev FdResult := World × Memory × Except Failure Unit

/-- Copies a descriptor to a free number. -/
def duplicateFd (mem : Memory) (fd minResultFd : Int) (fdFlagsExt : Flags) (retFdPtr : Int) :
    FdResult :=
  if mem.canWriteU32 retFdPtr = false then (w, mem, .error (.errno .fault))
  else
    match w.duplicateOpenFileForFd fd with
    | (w', none) => (w', mem, .error (.errno .badf))
    | (w', some file) =>
        let allocated := w'.allocateDynamicFileFd minResultFd
        (((allocated.1.retainOpenFile file).putOpenFile allocated.2 file).writeFdFlagsExt
            allocated.2 fdFlagsExt,
          mem.finishU32 retFdPtr allocated.2.toNat (.ok ()))

/-- The import `fd_dup`. -/
def fdDup (mem : Memory) (fd retFdPtr : Int) : FdResult :=
  w.duplicateFd mem fd firstFileFd 0 retFdPtr

/-- Copies a descriptor to a given number. -/
def duplicateFdTo (mem : Memory) (fd targetFd : Int) (fdFlagsExt : Flags) (retFdPtr : Int) :
    FdResult :=
  let target := toUint32 targetFd
  if mem.canWriteU32 retFdPtr = false then (w, mem, .error (.errno .fault))
  else if (w.fdStat fd).isNone then (w, mem.finishU32 retFdPtr 0 (.error (.errno .badf)))
  else if isDynamicFileFdNumber target = false ∧ isStdioFd target = false then
    (w, mem.finishU32 retFdPtr 0 (.error (.errno .notcapable)))
  else if fd = target then (w, mem.finishU32 retFdPtr target.toNat (.ok ()))
  else
    match w.duplicateOpenFileForFd fd with
    | (w', none) => (w', mem.finishU32 retFdPtr 0 (.error (.errno .badf)))
    | (w', some file) =>
        if isStdioFd target = true ∧ mayReplaceStdio file = false then
          (w, mem.finishU32 retFdPtr 0 (.error (.errno .notcapable)))
        else
          (((((w'.closeReplaced target).retainOpenFile file).putOpenFile target
            file).writeFdFlagsExt target
              fdFlagsExt).reserveFd target,
            mem.finishU32 retFdPtr target.toNat (.ok ()))

/-- The import `fd_dup2`. -/
def fdDup2 (mem : Memory) (fd targetFd cloexec retFdPtr : Int) : FdResult :=
  w.duplicateFdTo mem fd targetFd (if cloexec = 1 then fdflagsExtCloexec else 0) retFdPtr

/-- An end of a pipe. -/
def pipeEnd (direction : Direction) (pipe : ℕ) : OpenFile where
  kind := .pipe direction pipe
  mount := none
  path := none
  rights :=
    match direction with
    | .read => pipeReadRights
    | .write => pipeWriteRights
  fdflags := 0

/-- Allocate a pipe whose two ends are about to be opened. -/
def allocPipe : World :=
  w.setHost { w.host with pipes := w.host.pipes.alloc ⟨[], 1, 1⟩ }

/-- The import `fd_pipe`. -/
def fdPipe (mem : Memory) (readFdPtr writeFdPtr : Int) : FdResult :=
  if mem.canWriteU32 readFdPtr = false ∨ mem.canWriteU32 writeFdPtr = false then
    (w, mem, .error (.errno .fault))
  else
    let pipe := w.host.pipes.next
    let readEnd := w.allocPipe.allocateDynamicFileFd firstFileFd
    let w₁ := readEnd.1.putOpenFile readEnd.2 (pipeEnd .read pipe)
    let writeEnd := w₁.allocateDynamicFileFd (readEnd.2 + 1)
    (writeEnd.1.putOpenFile writeEnd.2 (pipeEnd .write pipe),
      match mem.writeU32 readFdPtr readEnd.2.toNat with
      | none => (mem, .error .throws)
      | some mem' => mem'.finishU32 writeFdPtr writeEnd.2.toNat (.ok ()))

/-- A descriptor with reduced rights. -/
def withRights (file : OpenFile) (rights inheriting : Rights) : OpenFile :=
  { file with
    rights := rights
    kind :=
      match file.kind with
      | .directory _ preopenPath offset => .directory inheriting preopenPath offset
      | kind => kind }

/-- The import `fd_fdstat_set_rights`. -/
def fdFdstatSetRights (fd : Int) (rightsBase rightsInheriting : Rights) :
    World × Except Failure Unit :=
  match w.fdStat fd with
  | none => (w, .error (.errno .badf))
  | some stat =>
      if allowsRights rightsBase stat.rights = false ∨
          allowsRights rightsInheriting stat.inheriting = false then
        (w, .error (.errno .notcapable))
      else
        match w.openFile fd with
        | some file => (w.putOpenFile fd (withRights file rightsBase rightsInheriting), .ok ())
        | none => (w, .ok ())

/-- The import `fd_fdflags_set`. -/
def fdFdflagsSet (fd : Int) (flags : Flags) : World × Except Failure Unit :=
  if hasFlag flags (~~~fdflagsExtMask) = true then (w, .error (.errno .inval))
  else if (w.fdStat fd).isNone then (w, .error (.errno .badf))
  else (w.writeFdFlagsExt fd flags, .ok ())

/-! ### Fork and exit -/

/-- Every descriptor of a table is opened once more. -/
def duplicateOpenFilesForFork : Host × OrdMap Int OpenFile :=
  (w.runtime.openFiles.values.foldl Host.retainOpenFile w.host,
    w.runtime.openFiles.mapVals fun _ file => duplicateOpenFileDescriptor file)

/-- Every descriptor of a table is closed. -/
def closeAllOpenFiles : World where
  host := w.runtime.openFiles.values.foldl Host.closeOpenFile w.host
  runtime := { w.runtime with openFiles := OrdMap.empty, fdFlagsExt := OrdMap.empty }

/-- The runtime a constructor call makes on the shared workspace. -/
def newRuntime (host : Host) (cwd : Option Text) (stdin : Bytes) : Runtime where
  cwd := normalizeRuntimeCwd cwd
  files := host.workspace.files
  workspaceDirs := host.workspace.dirs
  packageRootFd := if host.packageRoot.preopen then some firstFileFd else none
  fdFlagsExt := OrdMap.empty
  openFiles := OrdMap.empty
  scratch := ⟨OrdMap.empty, OrdMap.empty.set [] ()⟩
  nextFileFd := if host.packageRoot.preopen then firstFileFd + 1 else firstFileFd
  stdin := stdin
  stdinOffset := 0

/-- The child of a copied-memory fork: a new runtime with the parent's descriptors. -/
def forkChild : World :=
  let forked := w.duplicateOpenFilesForFork
  { host := forked.1
    runtime :=
      { newRuntime forked.1 (some w.runtime.cwd) (w.runtime.stdin.drop w.runtime.stdinOffset) with
        openFiles := forked.2
        fdFlagsExt := w.runtime.fdFlagsExt
        nextFileFd := w.runtime.nextFileFd } }

/-- Counting references changes the pipes of the host only. -/
def SameButPipes (host host' : Host) : Prop := host' = { host with pipes := host'.pipes }

variable {host host' : Host}

section

variable (h : SameButPipes host host')
include h

theorem SameButPipes.packageRoot :
    host'.packageRoot = host.packageRoot := by
  rw [h]

theorem SameButPipes.records : host'.records = host.records := by
  rw [h]

theorem SameButPipes.fileMaps : host'.fileMaps = host.fileMaps := by
  rw [h]

theorem SameButPipes.dirSets : host'.dirSets = host.dirSets := by
  rw [h]

theorem SameButPipes.workspace :
    host'.workspace = host.workspace := by
  rw [h]

end

theorem sameButPipes_foldl {f : Host → OpenFile → Host}
    (hf : ∀ host file, SameButPipes host (f host file)) (files : List OpenFile) (host : Host) :
    SameButPipes host (files.foldl f host) := by
  refine foldl_rel (r := SameButPipes) (fun host => rfl) (fun a b c hab hbc => ?_) hf files host
  rw [SameButPipes] at *
  rw [hbc, hab]

theorem sameButPipes_forkChild : SameButPipes w.host w.forkChild.host :=
  sameButPipes_foldl (f := Host.retainOpenFile) (fun _ _ => rfl) _ _

theorem sameButPipes_closeAllOpenFiles : SameButPipes w.host w.closeAllOpenFiles.host :=
  sameButPipes_foldl (f := Host.closeOpenFile) (fun _ _ => rfl) _ _

/-- The child has the table of its parent. -/
theorem openFiles_forkChild : w.forkChild.runtime.openFiles = w.runtime.openFiles := by
  simp [forkChild, duplicateOpenFilesForFork, duplicateOpenFileDescriptor, OrdMap.mapVals]

end World

end WasmHost

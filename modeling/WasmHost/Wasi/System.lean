import WasmHost.Wasi.Paths

/-!
# Calls, forks and runs

The transition system of a run. `Call` lists the imports that can change the state, `World.call`
is the transition of one runtime, and `System` adds the one other party there can be: the parent
that is suspended while the child of a copied-memory fork runs. A child has no fork runner of its
own, so at most one runtime is suspended at a time.

A call that throws ends the guest, but the objects it has already changed stay changed; the
transition keeps them.
-/

namespace WasmHost

/-- A call of an import that can change the state, with its arguments. Calls that exchange bytes
or numbers through linear memory carry the memory they find. -/
inductive Call
  | fdClose (fd : Int)
  | fdRenumber (fd target : Int)
  | fdDup (mem : Memory) (fd retFdPtr : Int)
  | fdDup2 (mem : Memory) (fd targetFd cloexec retFdPtr : Int)
  | fdPipe (mem : Memory) (readFdPtr writeFdPtr : Int)
  | fdFdstatSetRights (fd : Int) (rightsBase rightsInheriting : Rights)
  | fdFdflagsSet (fd : Int) (flags : Flags)
  | fdRead (mem : Memory) (fd iovsPtr iovsLen nreadPtr : Int)
  | fdPread (mem : Memory) (fd iovsPtr iovsLen offset nreadPtr : Int)
  | fdWrite (mem : Memory) (fd iovsPtr iovsLen nwrittenPtr : Int)
  | fdPwrite (mem : Memory) (fd iovsPtr iovsLen offset nwrittenPtr : Int)
  | fdSeek (mem : Memory) (fd delta whence newOffsetPtr : Int)
  | fdTell (mem : Memory) (fd offsetPtr : Int)
  | fdReaddir (mem : Memory) (fd bufferPtr bufferLength cookie bufferUsedPtr : Int)
  | fdAllocate (fd offset length : Int)
  | fdFilestatSetSize (fd size : Int)
  | pathOpen (fd : Int) (dirflags : Flags) (path : Text) (oflags : Flags)
      (rightsBase rightsInheriting : Rights) (fdflags : Flags)
  | pathOpen2 (fd : Int) (dirflags : Flags) (path : Text) (oflags : Flags)
      (rightsBase rightsInheriting : Rights) (fdflags fdFlagsExt : Flags)
  | pathCreateDirectory (fd : Int) (path : Text)
  | pathUnlinkFile (fd : Int) (path : Text)
  | pathRemoveDirectory (fd : Int) (path : Text)
  | pathRename (oldFd : Int) (oldPath : Text) (newFd : Int) (newPath : Text)
  | chdir (path : Text)

/-- How a path call or a descriptor call ended, without its value. -/
def pathOutcome {α : Type} : Except Errno α → Except Failure Unit
  | .ok _ => .ok ()
  | .error errno => .error (.errno errno)

namespace World

variable (w : World)

/-- The state, the memory and the outcome of a call. Calls that do not use the memory leave the
given one. -/
def callResult (mem : Memory) : Call → World × Memory × Except Failure Unit
  | .fdClose fd => let r := w.fdClose fd; (r.1, mem, r.2)
  | .fdRenumber fd target => let r := w.fdRenumber fd target; (r.1, mem, r.2)
  | .fdDup mem fd retFdPtr => w.fdDup mem fd retFdPtr
  | .fdDup2 mem fd targetFd cloexec retFdPtr => w.fdDup2 mem fd targetFd cloexec retFdPtr
  | .fdPipe mem readFdPtr writeFdPtr => w.fdPipe mem readFdPtr writeFdPtr
  | .fdFdstatSetRights fd rightsBase rightsInheriting =>
      let r := w.fdFdstatSetRights fd rightsBase rightsInheriting; (r.1, mem, r.2)
  | .fdFdflagsSet fd flags => let r := w.fdFdflagsSet fd flags; (r.1, mem, r.2)
  | .fdRead mem fd iovsPtr iovsLen nreadPtr => w.fdRead mem fd iovsPtr iovsLen nreadPtr
  | .fdPread mem fd iovsPtr iovsLen offset nreadPtr =>
      w.fdPread mem fd iovsPtr iovsLen offset nreadPtr
  | .fdWrite mem fd iovsPtr iovsLen nwrittenPtr => w.fdWrite mem fd iovsPtr iovsLen nwrittenPtr
  | .fdPwrite mem fd iovsPtr iovsLen offset nwrittenPtr =>
      w.fdPwrite mem fd iovsPtr iovsLen offset nwrittenPtr
  | .fdSeek mem fd delta whence newOffsetPtr => w.fdSeek mem fd delta whence newOffsetPtr
  | .fdTell mem fd offsetPtr => w.fdTell mem fd offsetPtr
  | .fdReaddir mem fd bufferPtr bufferLength cookie bufferUsedPtr =>
      (w, w.fdReaddir mem fd bufferPtr bufferLength cookie bufferUsedPtr)
  | .fdAllocate fd offset length => let r := w.fdAllocate fd offset length; (r.1, mem, r.2)
  | .fdFilestatSetSize fd size => let r := w.fdFilestatSetSize fd size; (r.1, mem, r.2)
  | .pathOpen fd dirflags path oflags rightsBase rightsInheriting fdflags =>
      let r := w.pathOpen fd dirflags path oflags rightsBase rightsInheriting fdflags
      (r.1, mem, pathOutcome r.2)
  | .pathOpen2 fd dirflags path oflags rightsBase rightsInheriting fdflags fdFlagsExt =>
      let r := w.pathOpen2 fd dirflags path oflags rightsBase rightsInheriting fdflags fdFlagsExt
      (r.1, mem, pathOutcome r.2)
  | .pathCreateDirectory fd path =>
      let r := w.pathCreateDirectory fd path; (r.1, mem, pathOutcome r.2)
  | .pathUnlinkFile fd path => let r := w.pathUnlinkFile fd path; (r.1, mem, pathOutcome r.2)
  | .pathRemoveDirectory fd path =>
      let r := w.pathRemoveDirectory fd path; (r.1, mem, pathOutcome r.2)
  | .pathRename oldFd oldPath newFd newPath =>
      let r := w.pathRename oldFd oldPath newFd newPath; (r.1, mem, pathOutcome r.2)
  | .chdir path => let r := w.chdir path; (r.1, mem, pathOutcome r.2)

/-- The state after a call. -/
def call (c : Call) : World := (w.callResult ⟨0, fun _ => 0⟩ c).1

/-! ### The snapshot of a child command -/

/-- A file of a normalized snapshot, by key. -/
structure SnapshotFile where
  path : Text
  bytes : Bytes
  mtimeMs : ℕ

/-- The entries of a normalized snapshot, by key. -/
structure SnapshotTree where
  directories : List Text
  files : List SnapshotFile

/-- Put a new file object under a key of the shared workspace. -/
def putSnapshotFile (path : Text) (record : FileRecord) : World :=
  w.setHost
    { w.host with
      records := w.host.records.alloc record
      fileMaps := w.host.fileMaps.modify w.host.workspace.files
        fun files => files.set path w.host.records.next }

/-- The package files of the workspace, with the paths they have now. -/
def fallbackFiles : List (Text × Bytes) :=
  (w.host.fileMaps.get w.host.workspace.files).values.filterMap fun record =>
    let r := w.host.records.get record
    if r.fallback then r.path.map fun path => (path, r.bytes) else none

/-- The workspace with the directories of a snapshot and no files yet. -/
def resetWorkspace (directories : List Text) : World :=
  w.setHost
    { w.host with
      fileMaps := w.host.fileMaps.modify w.host.workspace.files fun _ => OrdMap.empty
      dirSets := w.host.dirSets.modify w.host.workspace.dirs fun _ =>
        OrdMap.ofList (directories.map fun path => (path, ())) }

/-- Put a file of the package back unless the snapshot has one of its name. -/
def putFallbackFile (file : Text × Bytes) : World :=
  if (w.host.fileMaps.get w.host.workspace.files).has file.1 then w
  else w.putSnapshotFile file.1 ⟨file.2, some file.1, none, true⟩

/-- Takes a workspace that comes back. -/
def importWasiWorkspaceSnapshot (snapshot : SnapshotTree) : World :=
  if w.writable = false then w
  else
    let imported := snapshot.files.foldl (fun w' file =>
      w'.putSnapshotFile file.path ⟨file.bytes, some file.path, some file.mtimeMs, false⟩)
      (w.resetWorkspace snapshot.directories)
    (w.fallbackFiles.foldl putFallbackFile imported).markWorkspaceDirty

/-- Bind one descriptor to the file that its path names now. -/
def rebindOpenFile (fd : Int) (file : OpenFile) : World :=
  match file.kind, file.path with
  | .file _ writable offset, some path =>
      if file.mount = some .workspace ∧ path ≠ [] then
        match w.workspaceMount.files.get path with
        | some record => w.putOpenFile fd { file with kind := .file record writable offset }
        | none =>
            if writable then
              (w.createFile .workspace path).putOpenFile fd
                { file with kind := .file w.host.records.next writable offset }
            else w
      else w
  | _, _ => w

/-- Binds open files to the files of their paths. -/
def rebindOpenWorkspaceFiles : World :=
  if w.writable = false then w
  else w.runtime.openFiles.entries.foldl (fun w' e => w'.rebindOpenFile e.1 e.2) w

/-- The effect of `processExecInputBytes`: a child command takes what a descriptor still has to
offer. -/
def processExecInputBytes (fd : Int) : World :=
  match w.openFile fd with
  | none => w
  | some file =>
      match file.kind with
      | .pipe direction pipe =>
          if direction = .read ∧ hasRight file.rights rightFdRead = true then
            w.setHost (w.host.modifyPipe pipe fun p => { p with bytes := [] })
          else w
      | .file record _ offset =>
          if file.canReadFile = true then
            w.setOffset offset (w.host.records.get record).bytes.length
          else w
      | _ => w

/-- Writes to a pipe that has a reader and room. -/
def writeBytesToPipe (direction : Direction) (pipe : ℕ) (bytes : Bytes) : World :=
  if direction = .write ∧ (w.host.pipes.get pipe).readers ≠ 0 ∧
      (w.host.pipes.get pipe).bytes.length + bytes.length ≤ pipeBufferLimit then
    w.setHost (w.host.modifyPipe pipe fun p => { p with bytes := p.bytes ++ bytes })
  else w

/-- The output of a child command goes to a descriptor. -/
def writeBytesToFd (fd : Int) (bytes : Bytes) : World :=
  match w.openFile fd with
  | none => if fd = stdoutFd ∨ fd = stderrFd then w.writeStdio fd [bytes] else w
  | some file =>
      match file.kind with
      | .pipe direction pipe => w.writeBytesToPipe direction pipe bytes
      | .stdio stdioFd => w.writeStdio stdioFd [bytes]
      | .file record _ offset =>
          if file.canWriteFile = true then w.writeOpenFile file record offset [bytes] else w
      | .directory .. => w

end World

/-! ### Runs -/

/-- The shared objects, the running runtime, and the runtime that waits for its child. -/
structure System where
  host : Host
  runtime : Runtime
  parent : Option Runtime

/-- What can happen next in a run. -/
inductive Event
  /-- The running guest makes a call. -/
  | call (c : Call)
  /-- The running guest forks with a copied memory, and its child runs. -/
  | fork
  /-- The running guest ends. -/
  | exit
  /-- A child command of the running guest takes its input from a descriptor. -/
  | childInput (fd : Int)
  /-- A child command of the running guest has returned a workspace. -/
  | childSnapshot (snapshot : World.SnapshotTree)
  /-- The output of a child command of the running guest is written to a descriptor. -/
  | childOutput (fd : Int) (bytes : Bytes)

namespace System

variable (s : System)

/-- The running runtime with the shared objects. -/
def world : World := ⟨s.host, s.runtime⟩

/-- Go on with another state of the running runtime. -/
def withWorld (w : World) : System := { s with host := w.host, runtime := w.runtime }

/-- The live runtimes. -/
def runtimes : List Runtime := s.runtime :: s.parent.toList

/-- The child runs until it ends; only then does the parent go on. -/
def fork : System :=
  match s.parent with
  | none => { s.withWorld s.world.forkChild with parent := some s.runtime }
  | some _ => s

/-- The end of a child. -/
def exit : System :=
  match s.parent with
  | some parent => ⟨s.world.closeAllOpenFiles.host, parent, none⟩
  | none => s

/-- The system behind an event. -/
def step (s : System) : Event → System
  | .call c => s.withWorld (s.world.call c)
  | .fork => s.fork
  | .exit => s.exit
  | .childInput fd => s.withWorld (s.world.processExecInputBytes fd)
  | .childOutput fd bytes => s.withWorld (s.world.writeBytesToFd fd bytes)
  | .childSnapshot snapshot =>
      s.withWorld (s.world.importWasiWorkspaceSnapshot snapshot).rebindOpenWorkspaceFiles

/-- A system before its first call: one runtime with an empty descriptor table. -/
def start (host : Host) (cwd : Option Text) (stdin : Bytes) : System :=
  ⟨host, World.newRuntime host cwd stdin, none⟩

end System

end WasmHost

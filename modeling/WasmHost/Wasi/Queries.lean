import WasmHost.Wasi.Boot
import WasmHost.Wasi.Openings

/-!
# Calls that only look

The descriptor and path imports that change nothing but the guest's memory: the status calls, the
calls for times, links and advice, which the host accepts or refuses without doing anything, and
`poll_oneoff`. A structure is stored as a whole; one that does not fit into the memory throws.

* `World.run_unchanged_of_errno`: no import, of these or of those that change the state, has
  changed anything when it returns an errno.
-/

namespace WasmHost

namespace Memory

variable (mem : Memory)

/-- Store a structure. -/
def writeStruct (ptr : Int) (bytes : Bytes) : Option Memory :=
  if 0 ≤ ptr ∧ ptr + bytes.length ≤ mem.byteLength then some (mem.store ptr.toNat bytes) else none

/-- Store a structure and succeed. -/
def finishStruct (ptr : Int) (bytes : Bytes) : Memory × Except Failure Unit :=
  match mem.writeStruct ptr bytes with
  | some mem' => (mem', .ok ())
  | none => (mem, .error .throws)

/-- The number stored in little-endian order at an address. -/
def readNumber (start size : ℕ) : ℕ :=
  ((List.range size).map fun i => (mem.byte (start + i)).toNat * 2 ^ (8 * i)).sum

end Memory

def fstflagsAtim : Flags := 1

def fstflagsAtimNow : Flags := 2

def fstflagsMtim : Flags := 4

def fstflagsMtimNow : Flags := 8

def fstflagsMask : Flags := fstflagsAtim ||| fstflagsAtimNow ||| fstflagsMtim ||| fstflagsMtimNow

/-- The flags are known, and none is against another. -/
def isSupportedFilestatSetTimesFlags (flags : Flags) : Bool :=
  if hasFlag flags (~~~fstflagsMask) = true then false
  else if hasFlag flags fstflagsAtim = true ∧ hasFlag flags fstflagsAtimNow = true then false
  else !(hasFlag flags fstflagsMtim && hasFlag flags fstflagsMtimNow)

def adviceNoreuse : Int := 5

def isSupportedAdvice (advice : Int) : Bool := 0 ≤ advice && advice ≤ adviceNoreuse

def isSupportedClock (clockId : ℕ) : Bool := clockId = 0 || clockId = 1

def OpenFile.canSetFileTimes (file : OpenFile) : Bool :=
  file.writable && hasRight file.rights rightFdFilestatSetTimes

namespace World

variable (w : World)

/-! ### Status -/

def preopentypeDir : ℕ := 0

/-- The name under which a number is preopened, or was before it was duplicated. -/
def preopenPath (fd : Int) : Option Text :=
  if some fd = w.runtime.packageRootFd then some packageRootPreopenPath
  else
    let named :=
      match w.openFile fd with
      | some ⟨.directory _ preopenPath _, _, _, _, _⟩ => preopenPath
      | _ => none
    match named with
    | some path => some path
    | none =>
        if fd = workspaceFd then some workspacePreopenPath
        else if fd = tmpFd then some tmpPreopenPath
        else none

/-- The status of a descriptor as it is written. -/
def fdstatBytes (stat : FdStat) : Bytes :=
  littleEndian 1 stat.filetype.code ++ littleEndian 1 0 ++ littleEndian 2 0 ++ littleEndian 4 0 ++
    littleEndian 8 stat.rights.toNat ++ littleEndian 8 stat.inheriting.toNat

/-- The status of a file as it is written. -/
def filestatBytes (filetype : Filetype) (size : ℕ) : Bytes :=
  littleEndian 8 0 ++ littleEndian 8 0 ++ littleEndian 1 filetype.code ++ littleEndian 1 0 ++
    littleEndian 2 0 ++ littleEndian 4 0 ++ littleEndian 8 1 ++ littleEndian 8 size ++
    littleEndian 8 0 ++ littleEndian 8 0 ++ littleEndian 8 0

/-- The import `fd_fdstat_get`. -/
def fdFdstatGet (mem : Memory) (fd fdstatPtr : Int) : Memory × Except Failure Unit :=
  match w.fdStat fd with
  | none => (mem, .error (.errno .badf))
  | some stat => mem.finishStruct fdstatPtr (fdstatBytes stat)

/-- The import `fd_filestat_get`. -/
def fdFilestatGet (mem : Memory) (fd filestatPtr : Int) : Memory × Except Failure Unit :=
  match w.fdStat fd with
  | none => (mem, .error (.errno .badf))
  | some stat => mem.finishStruct filestatPtr (filestatBytes stat.filetype stat.size)

/-- The flags of a descriptor are not stored. -/
def fdFdstatSetFlags (fd : Int) : Except Failure Unit :=
  if (w.fdStat fd).isSome then .ok () else .error (.errno .badf)

/-- The import `fd_fdflags_get`. -/
def fdFdflagsGet (mem : Memory) (fd flagsPtr : Int) : Memory × Except Failure Unit :=
  if (w.fdStat fd).isNone then (mem, .error (.errno .badf))
  else mem.finishU32 flagsPtr ((w.runtime.fdFlagsExt.get fd).getD 0).toNat (.ok ())

/-- The import `fd_prestat_get`. -/
def fdPrestatGet (mem : Memory) (fd prestatPtr : Int) : Memory × Except Failure Unit :=
  match w.preopenPath fd with
  | none => (mem, .error (.errno .badf))
  | some path =>
      mem.finishStruct prestatPtr
        (littleEndian 4 preopentypeDir ++ littleEndian 4 (encodeText path).length)

/-- The import `fd_prestat_dir_name`. -/
def fdPrestatDirName (mem : Memory) (fd pathPtr pathLen : Int) : Memory × Except Failure Unit :=
  match w.preopenPath fd with
  | none => (mem, .error (.errno .badf))
  | some path =>
      if toUint32 pathLen < (encodeText path).length then (mem, .error (.errno .inval))
      else mem.finishStruct pathPtr (encodeText path)

/-- `path_filestat_get` with its result in memory. -/
def pathFilestatGetTo (mem : Memory) (fd : Int) (flags : Flags) (path : Text) (filestatPtr : Int) :
    Memory × Except Failure Unit :=
  match w.pathFilestatGet fd flags path with
  | .error errno => (mem, .error (.errno errno))
  | .ok stat => mem.finishStruct filestatPtr (filestatBytes stat.filetype stat.size)

/-! ### Times, advice and links -/

/-- The import `fd_filestat_set_times`. -/
def fdFilestatSetTimes (fd : Int) (fstFlags : Flags) : Except Failure Unit :=
  if isSupportedFilestatSetTimesFlags fstFlags = false then .error (.errno .inval)
  else
    match w.openFile fd with
    | none => .error (.errno (w.notInTable fd))
    | some file =>
        if file.isOpenDirectory then .error (.errno .isdir)
        else if file.canSetFileTimes then .ok ()
        else .error (.errno .notcapable)

/-- The import `fd_advise`. -/
def fdAdvise (fd offset length advice : Int) : Except Failure Unit :=
  match w.openFile fd with
  | none => .error (.errno (w.notInTable fd))
  | some file =>
      if file.isOpenDirectory then .error (.errno .isdir)
      else if hasRight file.rights rightFdAdvise = false then .error (.errno .notcapable)
      else if isSupportedAdvice advice = false then .error (.errno .inval)
      else
        match resolveFileRange offset length with
        | .error errno => .error (.errno errno)
        | .ok _ => .ok ()

/-- `fd_sync` and `fd_datasync`. -/
def fdSync (fd : Int) (requiredRight : Rights) : Except Failure Unit :=
  match w.openFile fd with
  | none => .error (.errno (w.notInTable fd))
  | some file =>
      if file.isOpenDirectory then .error (.errno .isdir)
      else if file.writable && hasRight file.rights requiredRight then .ok ()
      else .error (.errno .notcapable)

/-- The checks of `path_filestat_set_times` in a mount. -/
def checkSetTimes (m : Mount ℕ) (key : Text) : Except Failure Unit :=
  if m.dirs.has key = true ∨ m.pathHasChildren key = true then .error (.errno .isdir)
  else if m.files.has key = true then .ok ()
  else .error (.errno .noent)

/-- The import `path_filestat_set_times`. -/
def pathFilestatSetTimes (fd : Int) (flags : Flags) (path : Text) (fstFlags : Flags) :
    Except Failure Unit :=
  if hasFlag flags (~~~lookupSymlinkFollow) = true ∨
      isSupportedFilestatSetTimesFlags fstFlags = false then .error (.errno .inval)
  else
    match (if w.writable then w.workspaceBasePathForRight fd rightPathFilestatSetTimes
        else .error .badf) with
    | .ok base =>
        match resolveMountedPath base path workspacePreopenPath w.writable true with
        | .error errno => .error (.errno errno)
        | .ok key => checkSetTimes w.workspaceMount key
    | .error _ =>
        match w.scratchBasePathForRight fd rightPathFilestatSetTimes with
        | .error errno => .error (.errno errno)
        | .ok base =>
            match resolveMountedPath base path tmpPreopenPath false true with
            | .error errno => .error (.errno errno)
            | .ok key => checkSetTimes w.runtime.scratch key

/-- The status behind `path_link` and `path_readlink`. -/
def pathStat (fd : Int) (path : Text) : Except Errno PathStat :=
  match w.workspacePathStat fd path with
  | some stat => stat
  | none =>
      match w.packageRootPathStat fd path with
      | some stat => stat
      | none =>
          match w.scratchPathStat fd path with
          | some stat => stat
          | none => .error (w.knownFd fd .notcapable)

/-- The path that a descriptor leads to. -/
def resolvePathForFd (fd : Int) (path : Text) : Except Errno Text :=
  match w.workspaceBasePathForPathRequest fd path with
  | some base => resolveMountedPath base path workspacePreopenPath w.writable true
  | none =>
      match w.packageRootBasePath fd with
      | some base => resolvePackageRootPath base path
      | none =>
          match w.scratchBasePath fd with
          | some base => resolveMountedPath base path tmpPreopenPath false true
          | none => .error (w.knownFd fd .notcapable)

/-- Links are not supported, after both names have been checked. -/
def pathLink (oldFd : Int) (oldFlags : Flags) (oldPath : Text) (newFd : Int) (newPath : Text) :
    Except Failure Unit :=
  if hasFlag oldFlags (~~~lookupSymlinkFollow) = true then .error (.errno .inval)
  else
    match w.pathStat oldFd oldPath with
    | .error errno => .error (.errno errno)
    | .ok _ =>
        match w.resolvePathForFd newFd newPath with
        | .error errno => .error (.errno errno)
        | .ok _ => .error (.errno .notsup)

/-- No entry is a link. -/
def pathReadlink (fd : Int) (path : Text) : Except Failure Unit :=
  match w.pathStat fd path with
  | .error errno => .error (.errno errno)
  | .ok _ => .error (.errno .inval)

/-- The import `path_symlink`. -/
def pathSymlink (fd : Int) (newPath : Text) : Except Failure Unit :=
  match w.resolvePathForFd fd newPath with
  | .error errno => .error (.errno errno)
  | .ok _ => .error (.errno .notsup)

/-! ### Polling -/

def eventFdReadwriteHangup : ℕ := 1

/-- What a poll reports about a descriptor. `Errno.success` is an event without error. -/
structure Readiness where
  error : Errno
  flags : ℕ
  nbytes : ℕ
  deriving DecidableEq, Repr

namespace Readiness

def failed (errno : Errno) : Readiness := ⟨errno, 0, 0⟩

def remaining (nbytes : ℕ) (hangup : Prop) [Decidable hangup] : Readiness :=
  ⟨.success, if hangup then eventFdReadwriteHangup else 0, nbytes⟩

end Readiness

/-- What a poll tells of standard input. -/
def stdinReadiness : Readiness :=
  let remaining := w.runtime.stdin.length - w.runtime.stdinOffset
  .remaining remaining (remaining = 0)

/-- What a poll to read tells. -/
def fdReadReadiness (fd : Int) : Readiness :=
  if fd = stdinFd then w.stdinReadiness
  else
    match w.openFile fd with
    | some ⟨.stdio stdioFd, _, _, rights, _⟩ =>
        if stdioFd ≠ stdinFd then .failed .badf
        else if hasRight rights rightFdRead = false then .failed .notcapable
        else w.stdinReadiness
    | some ⟨.pipe direction pipe, _, _, rights, _⟩ =>
        if direction ≠ .read then .failed .badf
        else if hasRight rights rightFdRead = false then .failed .notcapable
        else
          let remaining := (w.host.pipes.get pipe).bytes.length
          .remaining remaining (remaining = 0 ∧ (w.host.pipes.get pipe).writers = 0)
    | some ⟨.directory .., _, _, _, _⟩ => .failed .isdir
    | some ⟨.file record _ offset, _, _, rights, _⟩ =>
        if w.isDirectoryFd fd = true then .failed .isdir
        else if hasRight rights rightFdRead = false then .failed .notcapable
        else
          let remaining :=
            (w.host.records.get record).bytes.length - w.host.offsets.get offset
          .remaining remaining (remaining = 0)
    | none => .failed (if w.isDirectoryFd fd = true then .isdir else .badf)

/-- What a poll to write tells. -/
def fdWriteReadiness (fd : Int) : Readiness :=
  if fd = stdoutFd ∨ fd = stderrFd then .failed .success
  else
    match w.openFile fd with
    | some ⟨.stdio stdioFd, _, _, rights, _⟩ =>
        if stdioFd ≠ stdoutFd ∧ stdioFd ≠ stderrFd then .failed .badf
        else .failed (if hasRight rights rightFdWrite = true then .success else .notcapable)
    | some ⟨.pipe direction pipe, _, _, rights, _⟩ =>
        if direction ≠ .write then .failed .badf
        else if hasRight rights rightFdWrite = false then .failed .notcapable
        else .failed (if 0 < (w.host.pipes.get pipe).readers then .success else .pipe)
    | some file => .failed (if file.canWriteFile = true then .success else .notcapable)
    | none => .failed .badf

def subscriptionSize : ℕ := 48

def eventSize : ℕ := 32

/-- An event of a poll. -/
structure PollEvent where
  readiness : Readiness
  type : ℕ
  userdata : ℕ
  deriving DecidableEq, Repr

/-- An event as it is written. -/
def eventBytes (event : PollEvent) : Bytes :=
  littleEndian 8 event.userdata ++ littleEndian 2 event.readiness.error.code ++
    littleEndian 1 event.type ++ littleEndian 1 0 ++ littleEndian 4 0 ++
    littleEndian 8 event.readiness.nbytes ++ littleEndian 2 event.readiness.flags ++
    littleEndian 2 0 ++ littleEndian 4 0

/-- The event of a subscription; `none` for a type the host does not know. -/
def pollEvent (mem : Memory) (subscription : ℕ) : Option PollEvent :=
  let userdata := mem.readNumber subscription 8
  let type := mem.readNumber (subscription + 8) 1
  let fd : Int := mem.readNumber (subscription + 16) 4
  if type = 0 then
    let clockId := mem.readNumber (subscription + 16) 4
    let flags := mem.readNumber (subscription + 40) 2
    some ⟨.failed
      (if isSupportedClock clockId ∧ flags ≤ 1 then .success else .inval), type, userdata⟩
  else if type = 1 then some ⟨w.fdReadReadiness fd, type, userdata⟩
  else if type = 2 then some ⟨w.fdWriteReadiness fd, type, userdata⟩
  else none

/-- The import `poll_oneoff`. -/
def pollOneoff (mem : Memory) (subscriptionsPtr eventsPtr subscriptionsLen eventsUsedPtr : Int) :
    Memory × Except Failure Unit :=
  let count := (toUint32 subscriptionsLen).toNat
  if count = 0 then (mem, .error (.errno .inval))
  else if mem.byteLength < toUint32 subscriptionsPtr + count * subscriptionSize ∨
      mem.byteLength < toUint32 eventsPtr + count * eventSize ∨
      mem.byteLength < toUint32 eventsUsedPtr + 4 then (mem, .error (.errno .fault))
  else
    match (List.range count).mapM fun i =>
        w.pollEvent mem ((toUint32 subscriptionsPtr).toNat + i * subscriptionSize) with
    | none => (mem, .error (.errno .inval))
    | some events =>
        let stored := (events.zipIdx.foldl (fun mem' e =>
          mem'.store ((toUint32 eventsPtr).toNat + e.2 * eventSize) (eventBytes e.1)) mem)
        stored.finishU32 eventsUsedPtr count (.ok ())

/-! ### Sockets -/

/-- No descriptor is a socket. -/
def sockStub (fd : Int) : Except Failure Unit :=
  if (w.fdStat fd).isSome then .error (.errno .notsup) else .error (.errno .badf)

def sockShutdown (fd how : Int) : Except Failure Unit :=
  if how ≠ 1 ∧ how ≠ 2 ∧ how ≠ 3 then .error (.errno .inval) else w.sockStub fd

end World

/-- A call of an import that does not change the state, with its arguments. -/
inductive Query
  | fdFdstatGet (fd fdstatPtr : Int)
  | fdFdstatSetFlags (fd : Int)
  | fdFdflagsGet (fd flagsPtr : Int)
  | fdFilestatGet (fd filestatPtr : Int)
  | fdFilestatSetTimes (fd : Int) (fstFlags : Flags)
  | fdAdvise (fd offset length advice : Int)
  | fdDatasync (fd : Int)
  | fdSync (fd : Int)
  | fdPrestatGet (fd prestatPtr : Int)
  | fdPrestatDirName (fd pathPtr pathLen : Int)
  | pathFilestatGet (fd : Int) (flags : Flags) (path : Text) (filestatPtr : Int)
  | pathFilestatSetTimes (fd : Int) (flags : Flags) (path : Text) (fstFlags : Flags)
  | pathLink (oldFd : Int) (oldFlags : Flags) (oldPath : Text) (newFd : Int) (newPath : Text)
  | pathReadlink (fd : Int) (path : Text)
  | pathSymlink (fd : Int) (newPath : Text)
  | pollOneoff (subscriptionsPtr eventsPtr subscriptionsLen eventsUsedPtr : Int)
  | sockAccept (fd : Int)
  | sockRecv (fd : Int)
  | sockSend (fd : Int)
  | sockShutdown (fd how : Int)

/-- A call of a descriptor or path import. -/
inductive Import
  | call (c : Call)
  | query (q : Query)

namespace World

variable (w : World)

/-- The answer to a query. -/
def query (mem : Memory) : Query → Memory × Except Failure Unit
  | .fdFdstatGet fd fdstatPtr => w.fdFdstatGet mem fd fdstatPtr
  | .fdFdstatSetFlags fd => (mem, w.fdFdstatSetFlags fd)
  | .fdFdflagsGet fd flagsPtr => w.fdFdflagsGet mem fd flagsPtr
  | .fdFilestatGet fd filestatPtr => w.fdFilestatGet mem fd filestatPtr
  | .fdFilestatSetTimes fd fstFlags => (mem, w.fdFilestatSetTimes fd fstFlags)
  | .fdAdvise fd offset length advice => (mem, w.fdAdvise fd offset length advice)
  | .fdDatasync fd => (mem, w.fdSync fd rightFdDatasync)
  | .fdSync fd => (mem, w.fdSync fd rightFdSync)
  | .fdPrestatGet fd prestatPtr => w.fdPrestatGet mem fd prestatPtr
  | .fdPrestatDirName fd pathPtr pathLen => w.fdPrestatDirName mem fd pathPtr pathLen
  | .pathFilestatGet fd flags path filestatPtr => w.pathFilestatGetTo mem fd flags path filestatPtr
  | .pathFilestatSetTimes fd flags path fstFlags =>
      (mem, w.pathFilestatSetTimes fd flags path fstFlags)
  | .pathLink oldFd oldFlags oldPath newFd newPath =>
      (mem, w.pathLink oldFd oldFlags oldPath newFd newPath)
  | .pathReadlink fd path => (mem, w.pathReadlink fd path)
  | .pathSymlink fd newPath => (mem, w.pathSymlink fd newPath)
  | .pollOneoff subscriptionsPtr eventsPtr subscriptionsLen eventsUsedPtr =>
      w.pollOneoff mem subscriptionsPtr eventsPtr subscriptionsLen eventsUsedPtr
  | .sockAccept fd => (mem, w.sockStub fd)
  | .sockRecv fd => (mem, w.sockStub fd)
  | .sockSend fd => (mem, w.sockStub fd)
  | .sockShutdown fd how => (mem, w.sockShutdown fd how)

/-- The state, the memory and the outcome of an import. -/
def run (mem : Memory) : Import → World × Memory × Except Failure Unit
  | .call c => w.callResult mem c
  | .query q => (w, w.query mem q)

/-! ### Failed calls -/

/-- A call that ends in the given way has changed nothing if it returns an errno. -/
structure Atomic (w' : World) (outcome : Except Failure Unit) : Prop where
  unchanged : ∀ errno, outcome = .error (.errno errno) → w' = w

/-- That of a call which has the memory in its result. -/
abbrev AtomicIo (result : IoResult) : Prop := w.Atomic result.1 result.2.2

theorem atomic_self (outcome : Except Failure Unit) : w.Atomic w outcome := ⟨fun _ _ => rfl⟩

variable (w' : World) (mem : Memory) (fd : Int)

theorem atomic_ok : w.Atomic w' (.ok ()) := ⟨fun _ h => by cases h⟩

theorem atomic_throws : w.Atomic w' (.error .throws) := ⟨fun _ h => by cases h⟩

/-- Storing a result either succeeds or throws. -/
theorem atomic_finishU32 (mem : Memory) (ptr : Int) (value : ℕ) :
    w.Atomic w' (mem.finishU32 ptr value (.ok ())).2 := by
  unfold Memory.finishU32
  split
  · exact w.atomic_ok w'
  · exact w.atomic_throws w'

theorem atomic_duplicateFd (fd minResultFd : Int) (fdFlagsExt : Flags) (retFdPtr : Int) :
    w.AtomicIo (w.duplicateFd mem fd minResultFd fdFlagsExt retFdPtr) := by
  unfold duplicateFd
  split
  · exact w.atomic_self _
  split
  next w' h =>
    -- a number without a descriptor allocates no offset
    rw [w.duplicateOpenFileForFd_none h]
    exact w.atomic_self _
  · exact w.atomic_finishU32 ..

theorem atomic_duplicateFdTo (fd targetFd : Int) (fdFlagsExt : Flags) (retFdPtr : Int) :
    w.AtomicIo (w.duplicateFdTo mem fd targetFd fdFlagsExt retFdPtr) := by
  unfold duplicateFdTo
  dsimp only
  repeat' split
  all_goals first
    | exact w.atomic_self _
    | exact w.atomic_finishU32 ..
    | (rename_i h
       rw [w.duplicateOpenFileForFd_none h]
       exact w.atomic_self _)

/-! ### Failed path calls -/

theorem OpensOne.atomic {w : World} {result : OpenResult} (h : OpensOne w result) :
    w.Atomic result.1 (pathOutcome result.2) := by
  rcases h with ⟨errno, hresult⟩ | ⟨w₁, offset, file, -, -, -, hresult⟩
  · rw [hresult]
    exact w.atomic_self _
  · rw [hresult]
    exact w.atomic_ok _

theorem atomic_pathOpen2 (dirflags : Flags) (path : Text) (oflags : Flags)
    (rightsBase rightsInheriting : Rights) (fdflags fdFlagsExt : Flags) :
    w.Atomic (w.pathOpen2 fd dirflags path oflags rightsBase rightsInheriting fdflags fdFlagsExt).1
      (pathOutcome (w.pathOpen2 fd dirflags path oflags rightsBase rightsInheriting fdflags
        fdFlagsExt).2) := by
  have hopen :=
    (w.opensOne_pathOpen path oflags rightsBase rightsInheriting fdflags fd dirflags).atomic
  unfold pathOpen2
  split
  · exact w.atomic_self _
  split
  · exact w.atomic_ok _
  next w' errno h =>
    rw [h] at hopen
    exact hopen

theorem atomic_callResult (c : Call) :
    w.Atomic (w.callResult mem c).1 (w.callResult mem c).2.2 := by
  cases c with
  | fdDup => exact w.atomic_duplicateFd ..
  | fdDup2 => exact w.atomic_duplicateFdTo ..
  | fdClose | fdRenumber | fdFdstatSetRights | fdFdflagsSet | fdAllocate | fdFilestatSetSize |
    chdir =>
    dsimp only [callResult, fdClose, fdRenumber, fdFdstatSetRights, fdFdflagsSet, fdAllocate,
      growDescriptor, fdFilestatSetSize, resizeDescriptor, chdir]
    repeat' split
    all_goals first
      | exact w.atomic_self _
      | exact w.atomic_ok _
  | fdPipe | fdRead | fdPread | fdWrite | fdPwrite | fdSeek | fdTell | fdReaddir =>
    -- bytes are appended to a pipe only where nothing but the store of the count is left
    dsimp only [callResult, fdPipe, fdRead, fdReadPipe, fdReadStdio, readStdin, readOpenFile,
      fdPread, fdWrite, fdWritePipe, fdWriteStdio, fdPwrite, fdSeek, fdTell]
    repeat' split
    all_goals first
      | exact w.atomic_self _
      | exact w.atomic_ok _
      | exact w.atomic_throws _
      | exact w.atomic_finishU32 ..
  | pathOpen => exact (w.opensOne_pathOpen ..).atomic
  | pathOpen2 => exact w.atomic_pathOpen2 ..
  | pathCreateDirectory | pathUnlinkFile | pathRemoveDirectory | pathRename =>
    -- an edit that is made succeeds
    simp only [callResult, pathCreateDirectory, pathUnlinkFile, pathRemoveDirectory,
      withMutablePath, createDirectoryIn, unlinkFileIn, removeDirectoryIn, pathRename, renameIn]
    repeat' split
    all_goals first
      | exact w.atomic_self _
      | exact w.atomic_ok _

theorem atomic_run (i : Import) : w.Atomic (w.run mem i).1 (w.run mem i).2.2 := by
  cases i with
  | call c => exact w.atomic_callResult mem c
  | query => exact w.atomic_self _

/-- An import that returns an errno leaves the host as it was. -/
theorem run_unchanged_of_errno {mem : Memory} {i : Import} {errno : Errno}
    (h : (w.run mem i).2.2 = .error (.errno errno)) : (w.run mem i).1 = w :=
  (w.atomic_run mem i).unchanged errno h

/-- The general theorem, applied to a file with a byte that is there when it is to be created and
emptied. -/
theorem run_unchanged_exclusive :
    let w := (System.boot (some ⟨[[]], [⟨"a".toList, [7], 0⟩]⟩) [] [] none []).world
    let oflags := oflagsCreat ||| oflagsExcl ||| oflagsTrunc
    (w.run ⟨0, fun _ => 0⟩ (.call (.pathOpen 3 0 "a".toList oflags scratchFileRights 0 0))).1 =
      w := by
  intro w oflags
  have herrno : (w.run ⟨0, fun _ => 0⟩
      (.call (.pathOpen 3 0 "a".toList oflags scratchFileRights 0 0))).2.2 =
      .error (.errno .exist) := by decide
  exact run_unchanged_of_errno w herrno

end World

end WasmHost

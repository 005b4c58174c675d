import WasmHost.Wasi.PipeCounts
import WasmHost.Wasi.Queries
import WasmHost.Wasi.TreeShape

/-!
# One number, one object

What a descriptor number adds to the entry it has in the table. The imports look up the entry, but
some of them compare the number first: with the preopened numbers, with the standard streams for
`poll_oneoff`, and with the package root for everything a directory is good for.

* `World.Numbered`: the numbers of the workspace and of `/tmp` never get an entry.
* `World.ActsOn`: a number that every import but `poll_oneoff` treats by its entry alone.
* `System.sameObject_iff`: when two numbers with one entry are treated alike.
-/

namespace WasmHost

/-! ### Numbers in the table -/

namespace World

/-- The numbers in the table are those that descriptors may be moved to: the numbers of the
workspace and of `/tmp` are not among them. -/
def Numbered (w : World) : Prop := ∀ fd file, w.openFile fd = some file → ValidTarget fd

variable {fd : Int} {w w' : World}

theorem ValidTarget.ne_workspaceFd (h : ValidTarget fd) : fd ≠ workspaceFd := by
  rintro rfl
  simp [ValidTarget, isDynamicFileFdNumber, isStdioFd, workspaceFd, firstFileFd, stdinFd, stdoutFd,
    stderrFd] at h

theorem ValidTarget.ne_tmpFd (h : ValidTarget fd) : fd ≠ tmpFd := by
  rintro rfl
  simp [ValidTarget, isDynamicFileFdNumber, isStdioFd, tmpFd, firstFileFd, stdinFd, stdoutFd,
    stderrFd] at h

theorem validTarget_of_le (h : firstFileFd ≤ fd) : ValidTarget fd :=
  .inl (decide_eq_true h)

/-- The numbers only depend on the table. -/
theorem Numbered.of_table (h : w.Numbered)
    (htable : ∀ fd file, w'.openFile fd = some file →
      (w.openFile fd).isSome = true ∨ ValidTarget fd) : w'.Numbered := by
  intro fd file hfile
  rcases htable fd file hfile with hold | hnew
  · obtain ⟨old, hold⟩ := Option.isSome_iff_exists.1 hold
    exact h fd old hold
  · exact hnew

theorem Numbered.of_runtime (h : w.Numbered) (hopen : w'.runtime.openFiles = w.runtime.openFiles) :
    w'.Numbered := by
  refine h.of_table fun fd file hfile => .inl ?_
  rw [World.openFile, hopen] at hfile
  exact Option.isSome_of_eq_some hfile

theorem Numbered.of_set (h : w.Numbered) {file : OpenFile}
    (hset : w'.runtime.openFiles = w.runtime.openFiles.set fd file) (hfd : ValidTarget fd) :
    w'.Numbered := by
  refine h.of_table fun fd' file' hfile' => ?_
  rw [World.openFile, hset, OrdMap.get_set] at hfile'
  split at hfile'
  next heq => exact .inr (heq ▸ hfd)
  · exact .inl (Option.isSome_of_eq_some hfile')

theorem Numbered.of_delete (h : w.Numbered)
    (hdelete : w'.runtime.openFiles = w.runtime.openFiles.delete fd) : w'.Numbered := by
  refine h.of_table fun fd' file' hfile' => .inl ?_
  rw [World.openFile, hdelete, OrdMap.get_delete] at hfile'
  split at hfile'
  · cases hfile'
  · exact Option.isSome_of_eq_some hfile'

/-- Plain effects open descriptors at the next free number, at an allocated one or at a target. -/
theorem Plain.numbered (h : Plain w w') (hfirst : firstFileFd ≤ w.runtime.nextFileFd)
    (hw : w.Numbered) : w'.Numbered := by
  cases h with
  | quiet hq => exact hw.of_runtime hq.openFiles
  | pipeBytes | content | adopt => exact hw.of_runtime rfl
  | @truncate mount key record hget => cases mount <;> exact hw.of_runtime rfl
  | opened => exact hw.of_set rfl (validTarget_of_le hfirst)
  | closed => exact hw.of_delete rfl
  | @moved fd target file hfile htarget hne =>
    have hdrop : ((w.closeReplaced target).dropOpenFile fd).Numbered := hw.of_delete rfl
    exact hdrop.of_set rfl htarget
  | duplicated _ htarget | preopened _ _ _ htarget => exact hw.of_set rfl htarget
  | piped =>
    have hread : ((w.allocPipe.allocateDynamicFileFd firstFileFd).1.putOpenFile
        (w.allocPipe.allocateDynamicFileFd firstFileFd).2
        (pipeEnd .read w.host.pipes.next)).Numbered :=
      hw.of_set rfl (validTarget_of_le (w.allocPipe.firstFileFd_le_allocateDynamicFileFd _))
    exact hread.of_set rfl (validTarget_of_le (firstFileFd_le_allocateDynamicFileFd _ _))
  | rights rightsBase rightsInheriting hfile => exact hw.of_set rfl (hw _ _ hfile)

theorem Plains.numbered (h : Plains w w') (hs : w.Sound) (hw : w.Numbered) : w'.Numbered := by
  induction h with
  | refl => exact hw
  | tail hbefore hstep ih => exact hstep.numbered (Plains.keepsCounts hbefore hs).1.fresh.first ih

/-- An edit changes the entries of the table but not their numbers. -/
theorem numbered_perform (hw : w.Numbered) (mount : VirtualMount) (e : Mount.Edit ℕ) :
    (w.perform mount e).Numbered := by
  refine hw.of_table fun fd file hfile => .inl ?_
  rw [World.openFile, openFiles_perform, OrdMap.get_mapVals] at hfile
  obtain ⟨old, hold, -⟩ := Option.map_eq_some_iff.1 hfile
  exact Option.isSome_of_eq_some hold

theorem numbered_call (hs : w.Sound) (hw : w.Numbered) (c : Call) : (w.call c).Numbered := by
  rcases w.call_effects c with h | ⟨mount, e, -, h⟩
  · exact Plains.numbered h hs hw
  · exact Plains.numbered h (keepsCounts_perform w mount e hs).1 (numbered_perform hw mount e)

theorem numbered_childSnapshot (hw : w.Numbered) (snapshot : SnapshotTree) :
    (w.importWasiWorkspaceSnapshot snapshot).rebindOpenWorkspaceFiles.Numbered := by
  refine childSnapshot_induction (P := Numbered)
    (fun w' h => hw.of_runtime (congrArg Runtime.openFiles h.runtime)) (fun w' path h => h)
    fun w' fd file old record writable offset hfile _ h => ?_
  exact h.of_set rfl (h fd file hfile)

end World

namespace System

def Numbered (s : System) : Prop := ∀ r ∈ s.runtimes, (World.mk s.host r).Numbered

variable {s : System}

theorem Numbered.world (h : s.Numbered) : s.world.Numbered :=
  h s.runtime List.mem_cons_self

theorem Numbered.step (hs : s.Exact) (h : s.Numbered) (e : Event) : (s.step e).Numbered := by
  refine forall_runtimes_step (P := World.Numbered) (G := fun _ => True) h e
    (fun host _ r hr => (h r hr).of_runtime rfl) ?_ (fun w _ hruntime => ⟨?_, trivial⟩)
    (fun snapshot => ⟨World.numbered_childSnapshot h.world snapshot, trivial⟩) (fun _ _ => trivial)
    (h.world.of_runtime s.world.openFiles_forkChild)
  · rintro c rfl
    exact ⟨World.numbered_call hs.sound h.world c, trivial⟩
  · exact h.world.of_runtime (congrArg Runtime.openFiles hruntime)

theorem numbered_boot (snapshot : Option World.SnapshotTree) (files rootFiles : List PackageFile)
    (cwd : Option Text) (stdin : Bytes) : (boot snapshot files rootFiles cwd stdin).Numbered := by
  intro r hr fd file hfile
  obtain rfl : r = World.newRuntime (createWasiWorkspaceMount snapshot files rootFiles) cwd stdin :=
    by simpa [runtimes, boot, start] using hr
  cases hfile

theorem numbered_of_reach {snapshot : Option World.SnapshotTree}
    {files rootFiles : List PackageFile} {cwd : Option Text} {stdin : Bytes}
    (hreach : Reach step (boot snapshot files rootFiles cwd stdin) s) : s.Numbered := by
  have hboth : s.Exact ∧ s.Numbered := by
    refine hreach.invariant (I := fun t => t.Exact ∧ t.Numbered)
      ⟨?_, numbered_boot snapshot files rootFiles cwd stdin⟩
      fun t e ht _ => ⟨ht.1.step e, ht.2.step ht.1 e⟩
    exact exact_start (pipes_createWasiWorkspaceMount ..) cwd stdin
  exact hboth.2

end System

/-! ### Imports with a number -/

/-- An import that looks at the file or the directory behind a number, with its other arguments. -/
inductive FdImport
  | fdRead (iovsPtr iovsLen nreadPtr : Int)
  | fdPread (iovsPtr iovsLen offset nreadPtr : Int)
  | fdWrite (iovsPtr iovsLen nwrittenPtr : Int)
  | fdPwrite (iovsPtr iovsLen offset nwrittenPtr : Int)
  | fdSeek (delta whence newOffsetPtr : Int)
  | fdTell (offsetPtr : Int)
  | fdReaddir (bufferPtr bufferLength cookie bufferUsedPtr : Int)
  | fdAllocate (offset length : Int)
  | fdFilestatSetSize (size : Int)
  | fdFdstatGet (fdstatPtr : Int)
  | fdFilestatGet (filestatPtr : Int)
  | fdPrestatGet (prestatPtr : Int)
  | fdPrestatDirName (pathPtr pathLen : Int)
  | pathOpen (dirflags : Flags) (path : Text) (oflags : Flags)
      (rightsBase rightsInheriting : Rights) (fdflags : Flags)
  | pathFilestatGet (flags : Flags) (path : Text) (filestatPtr : Int)
  | pathCreateDirectory (path : Text)
  | pathUnlinkFile (path : Text)
  | pathRemoveDirectory (path : Text)

/-- The import with a number. -/
def FdImport.on (mem : Memory) (fd : Int) : FdImport → Import
  | .fdRead iovsPtr iovsLen nreadPtr => .call (.fdRead mem fd iovsPtr iovsLen nreadPtr)
  | .fdPread iovsPtr iovsLen offset nreadPtr =>
      .call (.fdPread mem fd iovsPtr iovsLen offset nreadPtr)
  | .fdWrite iovsPtr iovsLen nwrittenPtr => .call (.fdWrite mem fd iovsPtr iovsLen nwrittenPtr)
  | .fdPwrite iovsPtr iovsLen offset nwrittenPtr =>
      .call (.fdPwrite mem fd iovsPtr iovsLen offset nwrittenPtr)
  | .fdSeek delta whence newOffsetPtr => .call (.fdSeek mem fd delta whence newOffsetPtr)
  | .fdTell offsetPtr => .call (.fdTell mem fd offsetPtr)
  | .fdReaddir bufferPtr bufferLength cookie bufferUsedPtr =>
      .call (.fdReaddir mem fd bufferPtr bufferLength cookie bufferUsedPtr)
  | .fdAllocate offset length => .call (.fdAllocate fd offset length)
  | .fdFilestatSetSize size => .call (.fdFilestatSetSize fd size)
  | .fdFdstatGet fdstatPtr => .query (.fdFdstatGet fd fdstatPtr)
  | .fdFilestatGet filestatPtr => .query (.fdFilestatGet fd filestatPtr)
  | .fdPrestatGet prestatPtr => .query (.fdPrestatGet fd prestatPtr)
  | .fdPrestatDirName pathPtr pathLen => .query (.fdPrestatDirName fd pathPtr pathLen)
  | .pathOpen dirflags path oflags rightsBase rightsInheriting fdflags =>
      .call (.pathOpen fd dirflags path oflags rightsBase rightsInheriting fdflags)
  | .pathFilestatGet flags path filestatPtr => .query (.pathFilestatGet fd flags path filestatPtr)
  | .pathCreateDirectory path => .call (.pathCreateDirectory fd path)
  | .pathUnlinkFile path => .call (.pathUnlinkFile fd path)
  | .pathRemoveDirectory path => .call (.pathRemoveDirectory fd path)

namespace OpenFile

/-- The entry is a duplicate of the preopened package root. -/
def StandsForPackageRoot (file : OpenFile) : Prop :=
  ∃ inheriting offset rights fdflags, file =
    ⟨.directory inheriting (some packageRootPreopenPath) offset, some .packageRoot, some [], rights,
      fdflags⟩

/-- The name under which the directory was preopened. -/
def preopenPath? (file : OpenFile) : Option Text :=
  match file.kind with
  | .directory _ preopenPath _ => preopenPath
  | _ => none

end OpenFile

namespace World

/-- What a subscription of `poll_oneoff` of the given type, other than a clock, reports about a
number. -/
def pollReadiness (w : World) (type : ℕ) (fd : Int) : Option Readiness :=
  if type = 1 then some (w.fdReadReadiness fd)
  else if type = 2 then some (w.fdWriteReadiness fd)
  else none

/-- The event of a subscription is the readiness of its number. -/
theorem pollEvent_eq (w : World) (mem : Memory) {subscription : ℕ}
    (htype : mem.readNumber (subscription + 8) 1 ≠ 0) :
    w.pollEvent mem subscription =
      (w.pollReadiness (mem.readNumber (subscription + 8) 1)
        (mem.readNumber (subscription + 16) 4)).map
        fun readiness => ⟨readiness, mem.readNumber (subscription + 8) 1,
          mem.readNumber subscription 8⟩ := by
  unfold pollEvent pollReadiness
  simp only [htype, if_false]
  split
  · rfl
  · split <;> rfl

/-- Every import gives the same result on the two numbers. -/
structure SameObject (w : World) (n m : Int) : Prop where
  run : ∀ (mem : Memory) (i : FdImport), w.run mem (i.on mem n) = w.run mem (i.on mem m)
  poll : ∀ type, w.pollReadiness type n = w.pollReadiness type m

/-! ### Numbers that stand for their entry -/

/-- Everything the imports compare a number for, apart from `poll_oneoff`, is decided by its
entry. -/
structure ActsOn (w : World) (fd : Int) (file : OpenFile) : Prop where
  openFile : w.openFile fd = some file
  isDirectoryFd : w.isDirectoryFd fd = file.isOpenDirectory
  scratch : w.scratchBasePath fd = if file.isOpenScratchDirectory then file.path else none
  packageRoot :
    w.packageRootBasePath fd = if file.isOpenPackageRootDirectory then file.path else none
  workspace : w.workspaceBasePath fd = if file.isOpenWorkspaceDirectory then file.path else none
  preopenPath : w.preopenPath fd = file.preopenPath?

section

variable {w : World} {fd n m : Int} {file : OpenFile}

section

variable (hfile : w.openFile fd = some file)
include hfile

theorem preopenPath_eq (hfd : ValidTarget fd)
    (hroot : some fd ≠ w.runtime.packageRootFd) : w.preopenPath fd = file.preopenPath? := by
  obtain ⟨kind, mount, path, rights, fdflags⟩ := file
  unfold preopenPath
  rw [if_neg hroot, hfile, if_neg hfd.ne_workspaceFd, if_neg hfd.ne_tmpFd]
  cases kind with
  | directory inheriting preopenPath offset => cases preopenPath <;> rfl
  | stdio | pipe | file => rfl

/-- A number other than the package root stands for its entry. -/
theorem actsOn_of_ne (hfd : ValidTarget fd)
    (hroot : some fd ≠ w.runtime.packageRootFd) : w.ActsOn fd file where
  openFile := hfile
  isDirectoryFd := by
    simp [World.isDirectoryFd, hfd.ne_workspaceFd, hfd.ne_tmpFd, hroot, hfile]
  scratch := by simp [scratchBasePath, hfd.ne_tmpFd, hfile]
  packageRoot := by simp [packageRootBasePath, hroot, hfile]
  workspace := by simp [workspaceBasePath, hfd.ne_workspaceFd, hfile]
  preopenPath := preopenPath_eq hfile hfd hroot

/-- The number of the package root stands for an entry that is its duplicate. -/
theorem actsOn_packageRoot (hfd : ValidTarget fd)
    (hroot : some fd = w.runtime.packageRootFd) (hstands : file.StandsForPackageRoot) :
    w.ActsOn fd file := by
  obtain ⟨inheriting, offset, rights, fdflags, rfl⟩ := hstands
  refine ⟨hfile, ?_, ?_, ?_, ?_, ?_⟩
  · simp [World.isDirectoryFd, hroot, OpenFile.isOpenDirectory]
  · simp [scratchBasePath, hfd.ne_tmpFd, hfile, OpenFile.isOpenScratchDirectory]
  · simp [packageRootBasePath, hroot, OpenFile.isOpenPackageRootDirectory, OpenFile.isOpenDirectory]
  · simp [workspaceBasePath, hfd.ne_workspaceFd, hfile, OpenFile.isOpenWorkspaceDirectory]
  · simp [World.preopenPath, hroot, OpenFile.preopenPath?]

end

/-- Calls that check a number before they look at its content. -/
theorem ActsOn.knownFd (h : w.ActsOn fd file) (errno : Errno) : w.knownFd fd errno = errno := by
  simp [World.knownFd, w.fdStat_of_openFile h.openFile]

theorem ActsOn.call_eq (hn : w.ActsOn n file) (hm : w.ActsOn m file) (mem : Memory) (i : FdImport) :
    w.run mem (i.on mem n) = w.run mem (i.on mem m) := by
  have hdirectory := hn.isDirectoryFd.trans hm.isDirectoryFd.symm
  have hstat : w.fdStat n = w.fdStat m := by
    rw [w.fdStat_of_openFile hn.openFile, w.fdStat_of_openFile hm.openFile]
  have hscratch := hn.scratch.trans hm.scratch.symm
  have hpackageRoot := hn.packageRoot.trans hm.packageRoot.symm
  have hworkspace := hn.workspace.trans hm.workspace.symm
  have hpreopen := hn.preopenPath.trans hm.preopenPath.symm
  have hopen := hn.openFile.trans hm.openFile.symm
  have hknown : ∀ errno, w.knownFd n errno = w.knownFd m errno := fun errno => by
    rw [hn.knownFd, hm.knownFd]
  have hrequest : ∀ path, w.workspaceBasePathForPathRequest n path =
      w.workspaceBasePathForPathRequest m path := fun path => by
    simp only [workspaceBasePathForPathRequest, workspaceCwdBasePathForPathRequest, hpackageRoot,
      hworkspace]
  have hmutable : ∀ path, w.mutableBase n path = w.mutableBase m path := fun path => by
    simp only [mutableBase, mutableWorkspaceBasePathForPathRequest, hrequest, hscratch, hknown]
  cases i with
  | fdRead =>
    -- the number itself only matters outside the table
    obtain ⟨kind, mount, path, rights, fdflags⟩ := file
    simp only [FdImport.on, World.run, callResult, fdRead, hn.openFile, hm.openFile, hdirectory]
    cases kind <;> rfl
  | fdPread => simp only [FdImport.on, World.run, callResult, fdPread, hdirectory, hopen, hknown]
  | fdWrite => simp only [FdImport.on, World.run, callResult, fdWrite, hn.openFile, hm.openFile]
  | fdPwrite => simp only [FdImport.on, World.run, callResult, fdPwrite, hdirectory, hopen, hknown]
  | fdSeek => simp only [FdImport.on, World.run, callResult, fdSeek, hopen, hknown]
  | fdTell => simp only [FdImport.on, World.run, callResult, fdTell, hopen, hknown]
  | fdReaddir =>
    simp only [FdImport.on, World.run, callResult, fdReaddir, directoryForFd, hscratch,
      hpackageRoot, hworkspace, hknown]
  | fdAllocate =>
    simp only [FdImport.on, World.run, callResult, fdAllocate, hopen, notInTable, hstat]
  | fdFilestatSetSize =>
    simp only [FdImport.on, World.run, callResult, fdFilestatSetSize, hopen, notInTable, hstat]
  | fdFdstatGet => simp only [FdImport.on, World.run, query, fdFdstatGet, hstat]
  | fdFilestatGet => simp only [FdImport.on, World.run, query, fdFilestatGet, hstat]
  | fdPrestatGet => simp only [FdImport.on, World.run, query, fdPrestatGet, hpreopen]
  | fdPrestatDirName => simp only [FdImport.on, World.run, query, fdPrestatDirName, hpreopen]
  | pathOpen =>
    simp only [FdImport.on, World.run, callResult, pathOpen, pathOpenElsewhere,
      mutableWorkspaceBasePath, workspaceCwdBasePathForPathRequest, hscratch, hpackageRoot,
      hworkspace, hknown]
  | pathFilestatGet =>
    simp only [FdImport.on, World.run, query, pathFilestatGetTo, pathFilestatGet,
      packageRootPathStat, workspacePathStat, scratchPathStat, hrequest, hscratch, hpackageRoot,
      hworkspace, hknown]
  | pathCreateDirectory =>
    simp only [FdImport.on, World.run, callResult, pathCreateDirectory, withMutablePath, hmutable]
  | pathUnlinkFile =>
    simp only [FdImport.on, World.run, callResult, pathUnlinkFile, withMutablePath, hmutable]
  | pathRemoveDirectory =>
    simp only [FdImport.on, World.run, callResult, pathRemoveDirectory, withMutablePath, hmutable]

/-! ### Readiness -/

/-- What a read subscription reports about an entry. -/
def readReadiness (w : World) (file : OpenFile) : Readiness :=
  match file.kind with
  | .stdio stdioFd =>
      if stdioFd ≠ stdinFd then .failed .badf
      else if hasRight file.rights rightFdRead = false then .failed .notcapable
      else w.stdinReadiness
  | .pipe direction pipe =>
      if direction ≠ .read then .failed .badf
      else if hasRight file.rights rightFdRead = false then .failed .notcapable
      else
        let remaining := (w.host.pipes.get pipe).bytes.length
        .remaining remaining (remaining = 0 ∧ (w.host.pipes.get pipe).writers = 0)
  | .directory .. => .failed .isdir
  | .file record _ offset =>
      if hasRight file.rights rightFdRead = false then .failed .notcapable
      else
        let remaining := (w.host.records.get record).bytes.length - w.host.offsets.get offset
        .remaining remaining (remaining = 0)

/-- What a write subscription reports about an entry. -/
def writeReadiness (w : World) (file : OpenFile) : Readiness :=
  match file.kind with
  | .stdio stdioFd =>
      if stdioFd ≠ stdoutFd ∧ stdioFd ≠ stderrFd then .failed .badf
      else .failed (if hasRight file.rights rightFdWrite = true then .success else .notcapable)
  | .pipe direction pipe =>
      if direction ≠ .write then .failed .badf
      else if hasRight file.rights rightFdWrite = false then .failed .notcapable
      else .failed (if 0 < (w.host.pipes.get pipe).readers then .success else .pipe)
  | _ => .failed (if file.canWriteFile = true then .success else .notcapable)

/-- The number of bytes that standard input still has. -/
def stdinRemaining (w : World) : ℕ := w.runtime.stdin.length - w.runtime.stdinOffset

/-- A read subscription cannot tell the entry from standard input. -/
def ReadsAsStdin (w : World) (file : OpenFile) : Prop :=
  match file.kind with
  | .stdio stdioFd => stdioFd = stdinFd ∧ hasRight file.rights rightFdRead = true
  | .pipe direction pipe =>
      direction = .read ∧ hasRight file.rights rightFdRead = true ∧
        (w.host.pipes.get pipe).bytes.length = w.stdinRemaining ∧
        (w.stdinRemaining = 0 → (w.host.pipes.get pipe).writers = 0)
  | .directory .. => False
  | .file record _ offset =>
      hasRight file.rights rightFdRead = true ∧
        (w.host.records.get record).bytes.length - w.host.offsets.get offset = w.stdinRemaining

/-- The entry takes output, as standard output and standard error do. -/
def ReadyToWrite (w : World) (file : OpenFile) : Prop :=
  match file.kind with
  | .stdio stdioFd =>
      (stdioFd = stdoutFd ∨ stdioFd = stderrFd) ∧ hasRight file.rights rightFdWrite = true
  | .pipe direction pipe =>
      direction = .write ∧ hasRight file.rights rightFdWrite = true ∧
        0 < (w.host.pipes.get pipe).readers
  | _ => file.canWriteFile = true

theorem fdReadReadiness_stdin (w : World) : w.fdReadReadiness stdinFd = w.stdinReadiness := by
  rw [fdReadReadiness, if_pos rfl]

theorem ActsOn.fdReadReadiness (h : w.ActsOn fd file) (hne : fd ≠ stdinFd) :
    w.fdReadReadiness fd = w.readReadiness file := by
  obtain ⟨kind, mount, path, rights, fdflags⟩ := file
  have hdirectory := h.isDirectoryFd
  unfold World.fdReadReadiness readReadiness
  rw [if_neg hne, h.openFile]
  cases kind with
  | file => simp [hdirectory, OpenFile.isOpenDirectory]
  | stdio | pipe | directory => rfl

theorem fdWriteReadiness_eq (hfile : w.openFile fd = some file)
    (hne : ¬(fd = stdoutFd ∨ fd = stderrFd)) : w.fdWriteReadiness fd = w.writeReadiness file := by
  obtain ⟨kind, mount, path, rights, fdflags⟩ := file
  unfold fdWriteReadiness writeReadiness
  rw [if_neg hne, hfile]
  cases kind <;> rfl

/-- What remains and whether it is the end are reported as they are. -/
theorem Readiness.remaining_eq_iff {a b : ℕ} {p q : Prop} [Decidable p] [Decidable q] :
    Readiness.remaining a p = Readiness.remaining b q ↔ a = b ∧ (p ↔ q) := by
  by_cases hp : p <;> by_cases hq : q <;>
    simp [Readiness.remaining, hp, hq, eventFdReadwriteHangup]

theorem failed_ne_stdin {errno : Errno} (h : errno ≠ .success) :
    Readiness.failed errno ≠ w.stdinReadiness := by
  intro heq
  exact h (congrArg Readiness.error heq)

theorem readReadiness_eq_stdin_iff (w : World) (file : OpenFile) :
    w.readReadiness file = w.stdinReadiness ↔ w.ReadsAsStdin file := by
  have hnotcapable := failed_ne_stdin (w := w) (show Errno.notcapable ≠ .success by decide)
  have hbadf := failed_ne_stdin (w := w) (show Errno.badf ≠ .success by decide)
  obtain ⟨kind, mount, path, rights, fdflags⟩ := file
  cases kind with
  | stdio stdioFd =>
    simp only [readReadiness, ReadsAsStdin]
    by_cases hfd : stdioFd = stdinFd
    · by_cases hright : hasRight rights rightFdRead = true <;> simp [hfd, hright, hnotcapable]
    · simp [hfd, hbadf]
  | pipe direction pipe =>
    simp only [readReadiness, ReadsAsStdin]
    by_cases hdirection : direction = .read
    · by_cases hright : hasRight rights rightFdRead = true
      · simp only [hdirection, hright, ne_eq, not_true_eq_false, if_false, Bool.true_eq_false,
          stdinReadiness, Readiness.remaining_eq_iff, stdinRemaining, true_and]
        constructor
        · rintro ⟨hlen, hend⟩
          exact ⟨hlen, fun hzero => (hend.2 hzero).2⟩
        · rintro ⟨hlen, hend⟩
          exact ⟨hlen, fun h => hlen ▸ h.1, fun hzero => ⟨hlen.trans hzero, hend hzero⟩⟩
      · simp [hdirection, hright, hnotcapable]
    · simp [hdirection, hbadf]
  | directory =>
    simpa [readReadiness, ReadsAsStdin] using failed_ne_stdin (w := w)
      (show Errno.isdir ≠ .success by decide)
  | file =>
    simp only [readReadiness, ReadsAsStdin]
    by_cases hright : hasRight rights rightFdRead = true
    · simp only [hright, Bool.true_eq_false, if_false, stdinReadiness, Readiness.remaining_eq_iff,
        stdinRemaining, true_and]
      exact ⟨fun h => h.1, fun h => ⟨h, by rw [h]⟩⟩
    · simp [hright, hnotcapable]

theorem writeReadiness_eq_success_iff (w : World) (file : OpenFile) :
    w.writeReadiness file = .failed .success ↔ w.ReadyToWrite file := by
  have hfailed : ∀ a b : Errno, Readiness.failed a = .failed b ↔ a = b := fun a b =>
    ⟨congrArg Readiness.error, congrArg Readiness.failed⟩
  obtain ⟨kind, mount, path, rights, fdflags⟩ := file
  cases kind with
  | stdio stdioFd =>
    simp only [writeReadiness, ReadyToWrite]
    by_cases hfd : stdioFd = stdoutFd ∨ stdioFd = stderrFd
    · have hnot : ¬(stdioFd ≠ stdoutFd ∧ stdioFd ≠ stderrFd) := by tauto
      by_cases hright : hasRight rights rightFdWrite = true <;> simp [hfd, hnot, hright, hfailed]
    · have hboth : stdioFd ≠ stdoutFd ∧ stdioFd ≠ stderrFd := by tauto
      simp [hboth, hfailed]
  | pipe direction pipe =>
    simp only [writeReadiness, ReadyToWrite]
    by_cases hdirection : direction = .write
    · by_cases hright : hasRight rights rightFdWrite = true
      · by_cases hreaders : 0 < (w.host.pipes.get pipe).readers <;>
          simp [hdirection, hright, hreaders, hfailed]
      · simp [hdirection, hright, hfailed]
    · simp [hdirection, hfailed]
  | directory =>
    simp [writeReadiness, ReadyToWrite, OpenFile.canWriteFile, OpenFile.writable, hfailed]
  | file =>
    simp only [writeReadiness, ReadyToWrite, hfailed]
    split
    next h => simp [h]
    next h => simp [h]

/-! ### The package root -/

theorem pathFilestatGet_packageRoot (hroot : some fd = w.runtime.packageRootFd) :
    w.pathFilestatGet fd 0 tmpPreopenPath = .ok ⟨.directory, 0⟩ := by
  have hbase : w.packageRootBasePath fd = some [] := by simp [packageRootBasePath, hroot]
  have hmount : rootVirtualMountPath [] tmpPreopenPath = .ok (some (.scratch, [])) := by decide
  have hstat : w.packageRootPathStat fd tmpPreopenPath = some (.ok ⟨.directory, 0⟩) := by
    unfold packageRootPathStat
    rw [hbase]
    dsimp only
    rw [if_neg (by decide), hmount]
    rfl
  unfold pathFilestatGet
  rw [hstat]
  rfl

/-- Below a workspace directory and below a `/tmp` directory, `/tmp` is refused. -/
theorem resolveMountedPath_tmp (base : Text) {mountPath : Text} {allowAbsolute : Bool}
    (h : allowAbsolute = true → mountPath = workspacePreopenPath) :
    resolveMountedPath base tmpPreopenPath mountPath allowAbsolute true = .error .notcapable := by
  have hnone : (if allowAbsolute then mountedRelativePath tmpPreopenPath mountPath else none)
      = none := by
    split
    next hallow =>
      rw [h hallow]
      decide
    · rfl
  unfold resolveMountedPath
  rw [hnone]
  rfl

/-- Only from the root of the package does `/tmp` name something. -/
theorem ActsOn.packageRoot_of_pathFilestatGet (h : w.ActsOn fd file) {stat : PathStat}
    (hstat : w.pathFilestatGet fd 0 tmpPreopenPath = .ok stat) :
    file.isOpenPackageRootDirectory = true ∧ file.path = some [] := by
  have hflags : ¬hasFlag 0 (~~~lookupSymlinkFollow) = true := by decide
  cases hbase : w.packageRootBasePath fd with
  | some base =>
    have hentry := h.packageRoot
    rw [hbase] at hentry
    split at hentry
    next hdirectory =>
      refine ⟨hdirectory, ?_⟩
      by_cases hnil : base = []
      · rw [← hentry, hnil]
      · -- below another directory of the package the path is absolute
        have hmount : rootVirtualMountPath base tmpPreopenPath = .ok none := by
          simp [rootVirtualMountPath, hnil]
        have hresolve : resolvePackageRootPath base tmpPreopenPath = .error .notcapable := by
          unfold resolvePackageRootPath resolveScratchPath
          rw [if_neg hnil]
          rfl
        have hfail : w.packageRootPathStat fd tmpPreopenPath = some (.error .notcapable) := by
          unfold packageRootPathStat
          rw [hbase]
          dsimp only
          rw [if_neg (by decide), hmount]
          rw [hresolve]
        unfold pathFilestatGet at hstat
        rw [if_neg hflags, hfail] at hstat
        cases hstat
    · cases hentry
  | none =>
    have hpackage : w.packageRootPathStat fd tmpPreopenPath = none := by
      simp [packageRootPathStat, hbase]
    have hcwd : w.workspaceCwdBasePathForPathRequest fd tmpPreopenPath = none := by
      simp [workspaceCwdBasePathForPathRequest, hbase]
    have hworkspace : w.workspacePathStat fd tmpPreopenPath = none ∨
        w.workspacePathStat fd tmpPreopenPath = some (.error .notcapable) := by
      unfold workspacePathStat workspaceBasePathForPathRequest
      cases w.workspaceBasePath fd with
      | none => exact .inl (by rw [hcwd])
      | some base =>
        refine .inr ?_
        dsimp only
        rw [if_neg (by decide), resolveMountedPath_tmp base fun _ => rfl]
    have hscratch : w.scratchPathStat fd tmpPreopenPath = none ∨
        w.scratchPathStat fd tmpPreopenPath = some (.error .notcapable) := by
      unfold scratchPathStat
      cases w.scratchBasePath fd with
      | none => exact .inl rfl
      | some base =>
        refine .inr ?_
        dsimp only
        rw [resolveMountedPath_tmp base (fun hfalse => by cases hfalse)]
    unfold pathFilestatGet at hstat
    rw [if_neg hflags, hpackage] at hstat
    rcases hworkspace with hw | hw <;> rcases hscratch with hs | hs <;> rw [hw] at hstat
    all_goals first
      | cases hstat
      | (simp only [hs] at hstat; cases hstat)

/-- Storing fewer than two bytes in an empty memory of one byte tells which ones they are. -/
theorem eq_of_store_eq {bytes : Bytes} {byte : UInt8} (hne : byte ≠ 0) (hlen : bytes.length ≤ 1)
    (h : Memory.store ⟨1, fun _ => 0⟩ 0 bytes = Memory.store ⟨1, fun _ => 0⟩ 0 [byte]) :
    bytes = [byte] := by
  have hbyte := congrFun (congrArg Memory.byte h) 0
  cases bytes with
  | nil =>
    simp only [Memory.store] at hbyte
    exact absurd hbyte.symm hne
  | cons first rest =>
    have hfirst : first = byte := by simpa [Memory.store] using hbyte
    have hrest : rest = [] := by
      rw [List.length_cons] at hlen
      exact List.length_eq_zero_iff.1 (by omega)
    rw [hfirst, hrest]

theorem finishStruct_filestatBytes (filetype : Filetype) (size : ℕ) :
    (Memory.finishStruct ⟨64, fun _ => 0⟩ 0 (filestatBytes filetype size)).2 = .ok () := by
  have hlen : (filestatBytes filetype size).length = 64 := by
    simp [filestatBytes, littleEndian]
  unfold Memory.finishStruct Memory.writeStruct
  rw [hlen]
  rfl

/-- A number with the preopen name of the package root is told apart by `fd_prestat_dir_name`. -/
theorem preopenPath_of_fdPrestatDirName (hn : w.preopenPath n = some packageRootPreopenPath)
    (h : w.fdPrestatDirName ⟨1, fun _ => 0⟩ n 0 1 = w.fdPrestatDirName ⟨1, fun _ => 0⟩ m 0 1) :
    w.preopenPath m = some packageRootPreopenPath := by
  have hencode : encodeText packageRootPreopenPath = [47] := by decide
  have hroot : w.fdPrestatDirName ⟨1, fun _ => 0⟩ n 0 1 =
      (Memory.store ⟨1, fun _ => 0⟩ 0 [47], .ok ()) := by
    unfold fdPrestatDirName
    rw [hn]
    simp only [hencode]
    rfl
  rw [hroot] at h
  unfold fdPrestatDirName at h
  cases hm : w.preopenPath m with
  | none =>
    rw [hm] at h
    cases congrArg Prod.snd h
  | some path =>
    rw [hm] at h
    dsimp only at h
    by_cases hlong : toUint32 1 < (encodeText path).length
    · rw [if_pos hlong] at h
      cases congrArg Prod.snd h
    · have hshort : (encodeText path).length ≤ 1 := by
        simp only [toUint32] at hlong
        omega
      have hfits : (0 : Int) ≤ 0 ∧ (0 : Int) + (encodeText path).length ≤ (1 : ℕ) := by omega
      rw [if_neg hlong, Memory.finishStruct, Memory.writeStruct, if_pos hfits] at h
      have hbytes := eq_of_store_eq (by decide) hshort (congrArg Prod.fst h).symm
      rw [encodeText_injective (hbytes.trans hencode.symm)]

theorem SameObject.symm (h : w.SameObject n m) : w.SameObject m n :=
  ⟨fun mem i => (h.run mem i).symm, fun type => (h.poll type).symm⟩

/-- An entry that the number of the package root shares with another number is its duplicate. -/
theorem SameObject.standsForPackageRoot (h : w.SameObject n m)
    (hroot : some n = w.runtime.packageRootFd) (hm : w.ActsOn m file) :
    file.StandsForPackageRoot := by
  obtain ⟨stat, hstat⟩ : ∃ stat, w.pathFilestatGet m 0 tmpPreopenPath = .ok stat := by
    have hrun := congrArg (fun r => r.2.2)
      (h.run ⟨64, fun _ => 0⟩ (.pathFilestatGet 0 tmpPreopenPath 0))
    simp only [World.run, FdImport.on, query, pathFilestatGetTo, pathFilestatGet_packageRoot hroot]
      at hrun
    cases hm : w.pathFilestatGet m 0 tmpPreopenPath with
    | ok stat => exact ⟨stat, rfl⟩
    | error errno =>
      -- the status of the root fits into the memory, so that it is no errno
      rw [hm, finishStruct_filestatBytes] at hrun
      cases hrun
  have hpreopen := preopenPath_of_fdPrestatDirName (m := m)
    (by simp [World.preopenPath, hroot] : w.preopenPath n = some packageRootPreopenPath)
    (congrArg Prod.snd (h.run ⟨1, fun _ => 0⟩ (.fdPrestatDirName 0 1)))
  obtain ⟨hdirectory, hpath⟩ := hm.packageRoot_of_pathFilestatGet hstat
  rw [hm.preopenPath] at hpreopen
  obtain ⟨kind, mount, path, rights, fdflags⟩ := file
  cases kind with
  | directory inheriting preopenPath offset =>
    obtain rfl : mount = some .packageRoot := by
      simpa [OpenFile.isOpenPackageRootDirectory, OpenFile.isOpenDirectory] using hdirectory
    obtain rfl : preopenPath = some packageRootPreopenPath := hpreopen
    obtain rfl : path = some [] := hpath
    exact ⟨inheriting, offset, rights, fdflags, rfl⟩
  | stdio | pipe | file => cases hpreopen

/-! ### Both numbers of an entry -/

/-- What an entry must be for two of its numbers to be treated alike: one that shares the number of
the package root is the package root, one that shares number 0 has as much to read as standard
input, and one that is on exactly one of 1 and 2 takes output. -/
structure FitsBoth (w : World) (n m : Int) (file : OpenFile) : Prop where
  root : some n = w.runtime.packageRootFd ∨ some m = w.runtime.packageRootFd →
    file.StandsForPackageRoot
  stdin : n = stdinFd ∨ m = stdinFd → w.ReadsAsStdin file
  output : ¬((n = stdoutFd ∨ n = stderrFd) ↔ (m = stdoutFd ∨ m = stderrFd)) → w.ReadyToWrite file

/-- A number that does not hold the package root's place by mistake stands for its entry. -/
theorem actsOn_of_root (hfile : w.openFile fd = some file) (hfd : ValidTarget fd)
    (hroot : some fd = w.runtime.packageRootFd → file.StandsForPackageRoot) : w.ActsOn fd file := by
  by_cases h : some fd = w.runtime.packageRootFd
  · exact actsOn_packageRoot hfile hfd h (hroot h)
  · exact actsOn_of_ne hfile hfd h

theorem fdReadReadiness_eq_of_fitsBoth (hn : w.ActsOn n file) (hm : w.ActsOn m file)
    (h : w.FitsBoth n m file) : w.fdReadReadiness n = w.fdReadReadiness m := by
  -- number 0 reports standard input, every other number its entry
  have hreport : ∀ fd, w.ActsOn fd file → (fd = stdinFd → w.ReadsAsStdin file) →
      w.fdReadReadiness fd = w.readReadiness file := by
    intro fd hfd hstdin
    by_cases hzero : fd = stdinFd
    · rw [hzero, fdReadReadiness_stdin]
      exact ((w.readReadiness_eq_stdin_iff file).2 (hstdin hzero)).symm
    · exact hfd.fdReadReadiness hzero
  rw [hreport n hn fun h0 => h.stdin (.inl h0), hreport m hm fun h0 => h.stdin (.inr h0)]

theorem fdWriteReadiness_output (w : World) {fd : Int} (h : fd = stdoutFd ∨ fd = stderrFd) :
    w.fdWriteReadiness fd = .failed .success := by
  rw [fdWriteReadiness, if_pos h]

theorem fdWriteReadiness_eq_of_fitsBoth (hn : w.openFile n = some file)
    (hm : w.openFile m = some file)
    (h : w.FitsBoth n m file) : w.fdWriteReadiness n = w.fdWriteReadiness m := by
  by_cases hnout : n = stdoutFd ∨ n = stderrFd <;> by_cases hmout : m = stdoutFd ∨ m = stderrFd
  · rw [w.fdWriteReadiness_output hnout, w.fdWriteReadiness_output hmout]
  · rw [w.fdWriteReadiness_output hnout, fdWriteReadiness_eq hm hmout]
    exact ((w.writeReadiness_eq_success_iff file).2 (h.output (by simp [hnout, hmout]))).symm
  · rw [w.fdWriteReadiness_output hmout, fdWriteReadiness_eq hn hnout]
    exact (w.writeReadiness_eq_success_iff file).2 (h.output (by simp [hnout, hmout]))
  · rw [fdWriteReadiness_eq hn hnout, fdWriteReadiness_eq hm hmout]

theorem SameObject.readsAsStdin (h : w.SameObject stdinFd m) (hm : w.ActsOn m file)
    (hne : m ≠ stdinFd) : w.ReadsAsStdin file := by
  have hpoll : w.fdReadReadiness stdinFd = w.fdReadReadiness m := Option.some.inj (h.poll 1)
  rw [fdReadReadiness_stdin, hm.fdReadReadiness hne] at hpoll
  exact (w.readReadiness_eq_stdin_iff file).1 hpoll.symm

theorem SameObject.readyToWrite (h : w.SameObject n m) (hm : w.openFile m = some file)
    (hnout : n = stdoutFd ∨ n = stderrFd) (hmout : ¬(m = stdoutFd ∨ m = stderrFd)) :
    w.ReadyToWrite file := by
  have hpoll : w.fdWriteReadiness n = w.fdWriteReadiness m := Option.some.inj (h.poll 2)
  rw [w.fdWriteReadiness_output hnout, fdWriteReadiness_eq hm hmout] at hpoll
  exact (w.writeReadiness_eq_success_iff file).1 hpoll.symm

/-- Two numbers of one entry are treated alike by every import exactly when the entry fits both. -/
theorem sameObject_iff_fitsBoth (hw : w.Numbered) (hn : w.openFile n = some file)
    (hm : w.openFile m = some file) (hne : n ≠ m) : w.SameObject n m ↔ w.FitsBoth n m file := by
  have hnvalid := hw n file hn
  have hmvalid := hw m file hm
  constructor
  · intro h
    have hroot : some n = w.runtime.packageRootFd ∨ some m = w.runtime.packageRootFd →
        file.StandsForPackageRoot := by
      rintro (hr | hr)
      · refine h.standsForPackageRoot hr (actsOn_of_ne hm hmvalid fun hr' => hne ?_)
        exact Option.some.inj (hr.trans hr'.symm)
      · refine h.symm.standsForPackageRoot hr (actsOn_of_ne hn hnvalid fun hr' => hne ?_)
        exact Option.some.inj (hr'.trans hr.symm)
    refine ⟨hroot, ?_, fun hout => ?_⟩
    · rintro (rfl | rfl)
      · exact h.readsAsStdin (actsOn_of_root hm hmvalid fun hr => hroot (.inr hr)) (Ne.symm hne)
      · exact h.symm.readsAsStdin (actsOn_of_root hn hnvalid fun hr => hroot (.inl hr)) hne
    · by_cases hnout : n = stdoutFd ∨ n = stderrFd
      · exact h.readyToWrite hm hnout fun hmout => hout (by simp [hnout, hmout])
      · exact h.symm.readyToWrite hn (by tauto) hnout
  · intro h
    have hactsn : w.ActsOn n file := actsOn_of_root hn hnvalid fun hr => h.root (.inl hr)
    have hactsm : w.ActsOn m file := actsOn_of_root hm hmvalid fun hr => h.root (.inr hr)
    refine ⟨hactsn.call_eq hactsm, fun type => ?_⟩
    unfold pollReadiness
    rw [fdReadReadiness_eq_of_fitsBoth hactsn hactsm h, fdWriteReadiness_eq_of_fitsBoth hn hm h]

end

end World

namespace System

/-- In every reachable state, two numbers that hold one descriptor are one object to the imports
exactly when the descriptor fits both. -/
theorem sameObject_iff {snapshot : Option World.SnapshotTree} {files rootFiles : List PackageFile}
    {cwd : Option Text} {stdin : Bytes} {s : System}
    (hreach : Reach step (boot snapshot files rootFiles cwd stdin) s) {n m : Int} {file : OpenFile}
    (hn : s.world.openFile n = some file) (hm : s.world.openFile m = some file) (hne : n ≠ m) :
    s.world.SameObject n m ↔ s.world.FitsBoth n m file :=
  World.sameObject_iff_fitsBoth (numbered_of_reach hreach).world hn hm hne

/-- A memory large enough to store a few numbers. -/
def smallMemory : Memory := ⟨64, fun _ => 0⟩

/-- A run that puts a duplicate of an end of a pipe on the number of standard output. -/
def pipeOnStdout (fd : Int) : System :=
  ((boot none [] [] none []).step (.call (.fdPipe smallMemory 0 4))).step
    (.call (.fdDup2 smallMemory fd 1 0 8))

theorem reach_pipeOnStdout (fd : Int) : Reach step (boot none [] [] none []) (pipeOnStdout fd) :=
  .next _ (.next _ .start trivial) trivial

/-- The write end of a pipe with a reader is the same object on 6 and as standard output. -/
theorem sameObject_writeEnd : (pipeOnStdout 6).world.SameObject 1 6 := by
  have hentry : ∀ fd : Int, fd = 1 ∨ fd = 6 →
      (pipeOnStdout 6).world.openFile fd = some (World.pipeEnd .write 0) := by
    rintro fd (rfl | rfl) <;> rfl
  refine (sameObject_iff (reach_pipeOnStdout 6) (hentry 1 (.inl rfl)) (hentry 6 (.inr rfl))
    (by decide)).2 ⟨fun h => ?_, fun h => ?_, fun _ => ?_⟩
  · rcases h with h | h <;> cases h
  · rcases h with h | h <;> cases h
  · exact ⟨rfl, by decide, by decide⟩

/-- The read end of a pipe is writable as standard output and not on its own number. -/
theorem not_sameObject_readEnd :
    ¬∀ s, Reach step (boot none [] [] none []) s → ∀ (n m : Int) (file : OpenFile),
      s.world.openFile n = some file → s.world.openFile m = some file →
        s.world.SameObject n m := by
  intro h
  have hsame := h (pipeOnStdout 5) (reach_pipeOnStdout 5) 1 5 (World.pipeEnd .read 0) rfl rfl
  exact absurd (hsame.poll 2) (by decide)

end System

end WasmHost

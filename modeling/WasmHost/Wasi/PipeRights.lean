import WasmHost.Wasi.HostBuffers
import WasmHost.Wasi.FreshNumbers

/-!
# Rights of pipes

No end of a pipe ever has the right to change the size of what is behind it. The runtime asks only
for this right before it resizes a record, which a pipe does not have.

* `System.fixedPipes_of_reach`: so it is in every reachable state, whatever buffers the hosts of the
  calls grant.
-/

namespace WasmHost

/-- If the descriptor is an end of a pipe, it has no right to change a size. -/
def OpenFile.FixedSize (file : OpenFile) : Prop :=
  file.isOpenPipe = true →
    hasRight file.rights rightFdAllocate = false ∧
    hasRight file.rights rightFdFilestatSetSize = false

/-- Every end of a pipe in the table has a fixed size. -/
def Runtime.FixedPipes (r : Runtime) : Prop :=
  ∀ fd file, r.openFiles.get fd = some file → file.FixedSize

/-- Fewer rights do not have a right that the rights they come from do not have. -/
theorem hasRight_eq_false_of_allowsRights {requested allowed right : Rights}
    (h : allowsRights requested allowed = true) (hright : hasRight allowed right = false) :
    hasRight requested right = false := by
  rw [allowsRights_iff] at h
  have hzero : allowed &&& right = 0 := by simpa [hasRight] using hright
  have heq : requested &&& right = 0 := by
    rw [← h, BitVec.and_assoc, hzero]
    exact BitVec.and_zero
  simp [hasRight, heq]

namespace OpenFile

variable {file : OpenFile}

theorem fixedSize_of_not_pipe (h : file.isOpenPipe = false) : file.FixedSize := by
  intro hpipe
  rw [h] at hpipe
  cases hpipe

theorem fixedSize_pipeEnd (direction : Direction) (pipe : ℕ) :
    (World.pipeEnd direction pipe).FixedSize := by
  intro _
  cases direction with
  | read =>
    change hasRight pipeReadRights rightFdAllocate = false ∧ hasRight pipeReadRights _ = false
    decide
  | write =>
    change hasRight pipeWriteRights rightFdAllocate = false ∧ hasRight pipeWriteRights _ = false
    decide

/-- Another path changes no rights. -/
theorem FixedSize.follow (h : file.FixedSize) (w : World) (mount : VirtualMount)
    (e : Mount.Edit ℕ) :
    (w.follow mount e file).FixedSize := by
  rw [w.follow_eq]
  exact h

/-- Reduced rights of an end of a pipe. -/
theorem FixedSize.withRights (h : file.FixedSize) {rights : Rights} (inheriting : Rights)
    (hrights : allowsRights rights file.rights = true) :
    (World.withRights file rights inheriting).FixedSize := by
  intro hpipe
  have hfile : file.isOpenPipe = true := by
    obtain ⟨kind, mount, path, rights, fdflags⟩ := file
    cases kind with
    | pipe => rfl
    | _ => exact hpipe
  obtain ⟨hallocate, hsize⟩ := h hfile
  exact ⟨hasRight_eq_false_of_allowsRights hrights hallocate,
    hasRight_eq_false_of_allowsRights hrights hsize⟩

/-- With this, whatever may be resized has a record. -/
theorem FixedSize.record_of_resizable (h : file.FixedSize)
    (hresizable : file.canAllocateFile = true ∨ file.canResizeFile = true) :
    ∃ record, file.record? = some record := by
  obtain ⟨kind, mount, path, rights, fdflags⟩ := file
  cases kind with
  | file record writable offset => exact ⟨record, rfl⟩
  | pipe =>
    obtain ⟨hallocate, hsize⟩ := h rfl
    rcases hresizable with hcan | hcan
    · rw [canAllocateFile, hallocate, Bool.and_false] at hcan
      cases hcan
    · rw [canResizeFile, hsize, Bool.and_false] at hcan
      cases hcan
  | stdio | directory => rcases hresizable with hcan | hcan <;> cases hcan

end OpenFile

/-! ### Tables -/

namespace Runtime

variable {r r' : Runtime} {fd : Int}

theorem FixedPipes.congr (h : r.FixedPipes) (heq : r'.openFiles = r.openFiles) : r'.FixedPipes := by
  intro fd file hfile
  rw [heq] at hfile
  exact h fd file hfile

theorem FixedPipes.set (h : r.FixedPipes) {file : OpenFile} (hfile : file.FixedSize)
    (heq : r'.openFiles = r.openFiles.set fd file) : r'.FixedPipes := by
  intro fd' file' hfile'
  rw [heq, OrdMap.get_set] at hfile'
  split at hfile'
  · exact Option.some.inj hfile' ▸ hfile
  · exact h fd' file' hfile'

theorem FixedPipes.delete (h : r.FixedPipes) (heq : r'.openFiles = r.openFiles.delete fd) :
    r'.FixedPipes := by
  intro fd' file' hfile'
  rw [heq, OrdMap.get_delete] at hfile'
  split at hfile'
  · cases hfile'
  · exact h fd' file' hfile'

end Runtime

namespace World

variable {w : World}

/-! ### Descriptor calls -/

section

variable (h : w.runtime.FixedPipes)
include h

theorem fixedPipes_fdClose (fd : Int) :
    (w.fdClose fd).1.runtime.FixedPipes := by
  unfold fdClose
  split
  · exact h.delete rfl
  · exact h

theorem fixedPipes_fdRenumber (fd target : Int) :
    (w.fdRenumber fd target).1.runtime.FixedPipes := by
  unfold fdRenumber
  split
  · exact h
  next file hfile =>
    repeat' split
    all_goals try exact h
    all_goals
      have hdropped : (w.dropOpenFile fd).runtime.FixedPipes := h.delete rfl
      exact hdropped.set (h fd file hfile) rfl

/-- A duplicate of an end of a pipe has its rights. -/
theorem fixedSize_of_duplicate {fd : Int} {w' : World} {file : OpenFile}
    (hdup : w.duplicateOpenFileForFd fd = (w', some file)) :
    w'.runtime.openFiles = w.runtime.openFiles ∧ file.FixedSize := by
  rcases w.duplicateOpenFileForFd_spec hdup with ⟨rfl, hsource⟩ |
    ⟨rfl, stat, preopenPath, mount, rfl⟩
  · cases hsource with
    | openFile hopen => exact ⟨rfl, h _ file hopen⟩
    | stdio => exact ⟨rfl, OpenFile.fixedSize_of_not_pipe rfl⟩
  · exact ⟨rfl, OpenFile.fixedSize_of_not_pipe rfl⟩

theorem fixedPipes_duplicateFd (mem : Memory) (fd minResultFd : Int)
    (fdFlagsExt : Flags) (retFdPtr : Int) :
    (w.duplicateFd mem fd minResultFd fdFlagsExt retFdPtr).1.runtime.FixedPipes := by
  unfold duplicateFd
  split
  · exact h
  split
  next w' hdup =>
    rw [w.duplicateOpenFileForFd_none hdup]
    exact h
  next w' file hdup =>
    obtain ⟨hopen, hfile⟩ := fixedSize_of_duplicate h hdup
    have hsame : w'.runtime.FixedPipes := h.congr hopen
    exact hsame.set hfile rfl

theorem fixedPipes_duplicateFdTo (mem : Memory) (fd targetFd : Int)
    (fdFlagsExt : Flags) (retFdPtr : Int) :
    (w.duplicateFdTo mem fd targetFd fdFlagsExt retFdPtr).1.runtime.FixedPipes := by
  unfold duplicateFdTo
  dsimp only
  split
  · exact h
  split
  · exact h
  split
  · exact h
  split
  · exact h
  split
  next w' hdup =>
    rw [w.duplicateOpenFileForFd_none hdup]
    exact h
  next w' file hdup =>
    split
    · exact h
    obtain ⟨hopen, hfile⟩ := fixedSize_of_duplicate h hdup
    have hsame : w'.runtime.FixedPipes := h.congr hopen
    exact hsame.set hfile rfl

theorem fixedPipes_fdPipe (mem : Memory) (readFdPtr writeFdPtr : Int) :
    (w.fdPipe mem readFdPtr writeFdPtr).1.runtime.FixedPipes := by
  unfold fdPipe
  split
  · exact h
  have hread : (w.putOpenFile (w.allocPipe.allocateDynamicFileFd firstFileFd).2
      (pipeEnd .read w.host.pipes.next)).runtime.FixedPipes :=
    h.set (OpenFile.fixedSize_pipeEnd _ _) rfl
  exact hread.set (OpenFile.fixedSize_pipeEnd .write w.host.pipes.next) rfl

theorem fixedPipes_fdFdstatSetRights (fd : Int) (rightsBase rightsInheriting : Rights) :
    (w.fdFdstatSetRights fd rightsBase rightsInheriting).1.runtime.FixedPipes := by
  unfold fdFdstatSetRights
  split
  · exact h
  next stat hstat =>
    split
    · exact h
    next hallowed =>
      split
      next file hfile =>
        have hrights : stat.rights = file.rights := by
          rw [w.fdStat_of_openFile hfile] at hstat
          rw [← Option.some.inj hstat, rights_openFileStat]
        have hbase : allowsRights rightsBase file.rights = true := by
          rw [← hrights]
          simpa using (not_or.1 hallowed).1
        exact h.set ((h fd file hfile).withRights rightsInheriting hbase) rfl
      · exact h

/-! ### Calls that leave the table -/

end

theorem openFiles_fdRead (w : World) (mem : Memory) (fd iovsPtr iovsLen nreadPtr : Int) :
    (w.fdRead mem fd iovsPtr iovsLen nreadPtr).1.runtime.openFiles = w.runtime.openFiles := by
  unfold fdRead fdReadPipe fdReadStdio readOpenFile readStdin
  repeat' split
  all_goals rfl

theorem openFiles_fdReadWithin (w : World) (allocates : ℕ → Bool) (mem : Memory)
    (fd iovsPtr iovsLen nreadPtr : Int) :
    (w.fdReadWithin allocates mem fd iovsPtr iovsLen nreadPtr).1.runtime.openFiles =
      w.runtime.openFiles := by
  unfold fdReadWithin
  split
  · unfold fdReadPipeWithin
    repeat' split
    all_goals rfl
  · exact w.openFiles_fdRead ..

theorem runtime_writeOpenFileAtWithin (w : World) (allocates : ℕ → Bool) (file : OpenFile)
    (record : ℕ) (chunks : List Bytes) (offset : ℕ) :
    (w.writeOpenFileAtWithin allocates file record chunks offset).1.runtime = w.runtime := by
  unfold writeOpenFileAtWithin
  split
  · rfl
  split
  · exact runtime_markOpenFileDirty ..
  · rfl

theorem runtime_writeOpenFileWithin (w : World) (allocates : ℕ → Bool) (file : OpenFile)
    (record offset : ℕ) (chunks : List Bytes) :
    (w.writeOpenFileWithin allocates file record offset chunks).1.runtime = w.runtime := by
  have hat := w.runtime_writeOpenFileAtWithin allocates file record chunks
  unfold writeOpenFileWithin
  dsimp only
  split
  next w' offset' heq => exact (congrArg (fun r => World.runtime r.1) heq.symm).trans (hat _)
  next w' heq => exact (congrArg (fun r => World.runtime r.1) heq.symm).trans (hat _)

theorem runtime_fdWriteWithin (w : World) (allocates : ℕ → Bool) (mem : Memory)
    (fd iovsPtr iovsLen nwrittenPtr : Int) :
    (w.fdWriteWithin allocates mem fd iovsPtr iovsLen nwrittenPtr).1.runtime = w.runtime := by
  unfold fdWriteWithin fdWritePipeWithin fdWriteStdioWithin
  repeat' split
  all_goals first
    | rfl
    | exact w.runtime_writeOpenFileWithin ..

theorem runtime_fdPwriteWithin (w : World) (allocates : ℕ → Bool) (mem : Memory)
    (fd iovsPtr iovsLen offset nwrittenPtr : Int) :
    (w.fdPwriteWithin allocates mem fd iovsPtr iovsLen offset nwrittenPtr).1.runtime =
      w.runtime := by
  unfold fdPwriteWithin
  repeat' split
  all_goals try rfl
  all_goals
    rename_i w' _ heq
    exact (congrArg (fun r => World.runtime r.1) heq.symm).trans
      (w.runtime_writeOpenFileAtWithin ..)

theorem runtime_resizeOpenFileWithin (w : World) (allocates : ℕ → Bool) (file : OpenFile)
    (record size : ℕ) :
    (w.resizeOpenFileWithin allocates file record size).1.runtime = w.runtime := by
  unfold resizeOpenFileWithin
  repeat' split
  all_goals first
    | rfl
    | exact w.runtime_resizeOpenFile ..

/-! ### Paths -/

theorem OpensOne.fixedPipes {result : OpenResult} (hopens : OpensOne w result)
    (h : w.runtime.FixedPipes) : result.1.runtime.FixedPipes := by
  rcases hopens with ⟨errno, rfl⟩ | ⟨w₁, offset, file, hprepares, hpipe, -, rfl⟩
  · exact h
  · have hprepared : w₁.runtime.FixedPipes := h.congr hprepares.openFiles
    exact hprepared.set (OpenFile.fixedSize_of_not_pipe hpipe) rfl

theorem fixedPipes_pathOpen2 (h : w.runtime.FixedPipes) (fd : Int) (dirflags : Flags) (path : Text)
    (oflags : Flags) (rightsBase rightsInheriting : Rights) (fdflags fdFlagsExt : Flags) :
    (w.pathOpen2 fd dirflags path oflags rightsBase rightsInheriting fdflags
      fdFlagsExt).1.runtime.FixedPipes := by
  have hopen := (w.opensOne_pathOpen path oflags rightsBase rightsInheriting fdflags fd
    dirflags).fixedPipes h
  unfold pathOpen2
  split
  · exact h
  split
  next w' opened heq =>
    rw [heq] at hopen
    exact hopen.congr (by split <;> rfl)
  next w' errno heq =>
    rw [heq] at hopen
    exact hopen

theorem fixedPipes_perform (h : w.runtime.FixedPipes) (mount : VirtualMount) (e : Mount.Edit ℕ) :
    (w.perform mount e).runtime.FixedPipes := by
  intro fd file hfile
  rw [openFiles_perform, OrdMap.get_mapVals] at hfile
  obtain ⟨old, hold, rfl⟩ := Option.map_eq_some_iff.1 hfile
  exact (h fd old hold).follow w mount e

theorem fixedPipes_of_editsEntry (h : w.runtime.FixedPipes) {c : Call} (hc : EditsEntry c) :
    (w.call c).runtime.FixedPipes := by
  rcases w.call_eq_perform hc with heq | ⟨mount, e, -, heq⟩
  · rw [heq]
    exact h
  · rw [heq]
    exact fixedPipes_perform h mount e

/-! ### Every call -/

theorem fixedPipes_callResultWithin (h : w.runtime.FixedPipes) (allocates : ℕ → Bool) (mem : Memory)
    (c : Call) : (w.callResultWithin allocates mem c).1.runtime.FixedPipes := by
  cases c with
  | fdClose fd => exact fixedPipes_fdClose h fd
  | fdRenumber fd target => exact fixedPipes_fdRenumber h fd target
  | fdDup mem' fd retFdPtr => exact fixedPipes_duplicateFd h mem' fd firstFileFd 0 retFdPtr
  | fdDup2 => exact fixedPipes_duplicateFdTo h _ _ _ _ _
  | fdPipe mem' readFdPtr writeFdPtr => exact fixedPipes_fdPipe h mem' readFdPtr writeFdPtr
  | fdFdstatSetRights fd rightsBase rightsInheriting =>
    exact fixedPipes_fdFdstatSetRights h fd rightsBase rightsInheriting
  | fdRead => exact h.congr (w.openFiles_fdReadWithin ..)
  | fdWrite => exact h.congr (congrArg Runtime.openFiles (w.runtime_fdWriteWithin ..))
  | fdPwrite => exact h.congr (congrArg Runtime.openFiles (w.runtime_fdPwriteWithin ..))
  | fdReaddir => exact h
  | fdAllocate | fdFilestatSetSize =>
    refine h.congr (congrArg Runtime.openFiles ?_)
    dsimp only [callResultWithin, fdAllocateWithin, fdFilestatSetSizeWithin]
    repeat' split
    all_goals first
      | rfl
      | exact w.runtime_resizeOpenFileWithin ..
  | pathOpen => exact (w.opensOne_pathOpen ..).fixedPipes h
  | pathOpen2 => exact fixedPipes_pathOpen2 h _ _ _ _ _ _ _ _
  | pathCreateDirectory fd path =>
    exact fixedPipes_of_editsEntry (c := .pathCreateDirectory fd path) h trivial
  | pathUnlinkFile fd path =>
    exact fixedPipes_of_editsEntry (c := .pathUnlinkFile fd path) h trivial
  | pathRemoveDirectory fd path =>
    exact fixedPipes_of_editsEntry (c := .pathRemoveDirectory fd path) h trivial
  | pathRename oldFd oldPath newFd newPath =>
    exact fixedPipes_of_editsEntry (c := .pathRename oldFd oldPath newFd newPath) h trivial
  | fdPread | fdSeek | fdTell | fdFdflagsSet | chdir =>
    refine h.congr ?_
    dsimp only [callResultWithin, callResult, fdPread, fdSeek, fdTell, fdFdflagsSet, chdir]
    repeat' split
    all_goals rfl

theorem fixedPipes_call (h : w.runtime.FixedPipes) (c : Call) : (w.call c).runtime.FixedPipes := by
  have heq := w.runWithin_true ⟨0, fun _ => 0⟩ (.call c)
  change w.callResultWithin (fun _ => true) ⟨0, fun _ => 0⟩ c =
    w.callResult ⟨0, fun _ => 0⟩ c at heq
  rw [call, ← heq]
  exact fixedPipes_callResultWithin h _ _ c

/-- Binding the descriptors of files to those of a snapshot leaves the others. -/
theorem fixedPipes_childSnapshot (h : w.runtime.FixedPipes) (snapshot : SnapshotTree) :
    (w.importWasiWorkspaceSnapshot snapshot).rebindOpenWorkspaceFiles.runtime.FixedPipes := by
  refine childSnapshot_induction (P := fun w' => w'.runtime.FixedPipes)
    (fun w' himported => h.congr (congrArg Runtime.openFiles himported.runtime))
      (fun w' path h => h)
    fun w' fd file old record writable offset _ _ h => ?_
  exact h.set (OpenFile.fixedSize_of_not_pipe rfl) rfl

end World

/-! ### Runs -/

namespace System

/-- In every live runtime the ends of pipes have a fixed size. -/
def FixedPipes (s : System) : Prop := ∀ r ∈ s.runtimes, r.FixedPipes

variable {s : System}

theorem FixedPipes.withWorld (h : s.FixedPipes) {w : World} (hw : w.runtime.FixedPipes) :
    (s.withWorld w).FixedPipes := by
  intro r hr
  rcases List.mem_cons.1 hr with rfl | hparent
  · exact hw
  · exact h r (List.mem_cons_of_mem _ hparent)

theorem FixedPipes.step (h : s.FixedPipes) (e : Event) : (s.step e).FixedPipes := by
  have hrunning : s.world.runtime.FixedPipes := h s.runtime List.mem_cons_self
  refine forall_runtimes_step (P := fun w => w.runtime.FixedPipes) (G := fun _ => True) h e
    (fun host _ r hr => h r hr) (fun c _ => ⟨World.fixedPipes_call hrunning c, trivial⟩)
    (fun w _ hruntime => ⟨hrunning.congr (congrArg Runtime.openFiles hruntime), trivial⟩)
    (fun snapshot => ⟨World.fixedPipes_childSnapshot hrunning snapshot, trivial⟩)
    (fun _ _ => trivial)
    (hrunning.congr s.world.openFiles_forkChild)

theorem FixedPipes.stepWithin (h : s.FixedPipes) (e : HostEvent) : (s.stepWithin e).FixedPipes := by
  cases e with
  | event e => exact h.step e
  | call allocates c =>
    exact h.withWorld
      (World.fixedPipes_callResultWithin (h s.runtime List.mem_cons_self) allocates _ c)

/-- A new runtime has an empty table. -/
theorem fixedPipes_start (host : Host) (cwd : Option Text) (stdin : Bytes) :
    (start host cwd stdin).FixedPipes := by
  intro r hr fd file hfile
  obtain rfl : r = World.newRuntime host cwd stdin := by simpa [runtimes, start] using hr
  cases hfile

theorem fixedPipes_of_reach {host : Host} {cwd : Option Text} {stdin : Bytes}
    (h : Reach stepWithin (start host cwd stdin) s) : s.FixedPipes :=
  h.invariant (I := FixedPipes) (fixedPipes_start host cwd stdin) fun _ e hs _ => hs.stepWithin e

end System

end WasmHost

import WasmHost.Wasi.Boot
import WasmHost.Wasi.Effects

/-!
# Which calls check rights

`Call.requiredRights` lists the rights that a call needs on the descriptors it goes through.
Whether success means that they are there differs from call to call: `fd_pread`, `fd_write`,
`fd_pwrite`, `fd_allocate` and `fd_filestat_set_size` always check, `fd_read` checks for pipes and
standard streams only, `path_rename` checks except on the way from the package root into the
workspace, and `fd_seek`, `fd_tell`, `fd_readdir` and the calls that create or remove an entry
never check.

* `World.enforcesRights_iff`: what has to be true of a descriptor for every call through it to
  need its rights, in any state.
-/

namespace WasmHost

open List

/-- The rights that a call needs, each with the descriptor it needs it on. -/
def Call.requiredRights : Call → List (Int × Rights)
  | .fdRead _ fd _ _ _ => [(fd, rightFdRead)]
  | .fdPread _ fd _ _ _ _ => [(fd, rightFdRead)]
  | .fdWrite _ fd _ _ _ => [(fd, rightFdWrite)]
  | .fdPwrite _ fd _ _ _ _ => [(fd, rightFdWrite)]
  | .fdSeek _ fd _ _ _ => [(fd, rightFdSeek)]
  | .fdTell _ fd _ => [(fd, rightFdTell)]
  | .fdAllocate fd _ _ => [(fd, rightFdAllocate)]
  | .fdFilestatSetSize fd _ => [(fd, rightFdFilestatSetSize)]
  | .fdReaddir _ fd _ _ _ _ => [(fd, rightFdReaddir)]
  | .pathCreateDirectory fd _ => [(fd, rightPathCreateDirectory)]
  | .pathUnlinkFile fd _ => [(fd, rightPathUnlinkFile)]
  | .pathRemoveDirectory fd _ => [(fd, rightPathRemoveDirectory)]
  | .pathRename oldFd _ newFd _ =>
      [(oldFd, rightPathRenameSource), (newFd, rightPathRenameTarget)]
  | _ => []

namespace World

variable (w : World) {stat : FdStat} {direction : Direction} {pipe record : ℕ} {stdioFd : Int}

/-- The rights reported for a descriptor contain a right. -/
def Holds (fd : Int) (right : Rights) : Prop :=
  ∃ stat, w.fdStat fd = some stat ∧ hasRight stat.rights right = true

/-- The state, the memory and the outcome of a call, where calls that do not use the memory have
none. -/
def outcome (c : Call) : World × Memory × Except Failure Unit := w.callResult ⟨0, fun _ => 0⟩ c

def Succeeds (c : Call) : Prop := (w.outcome c).2.2 = .ok ()

/-- The call delivers data or changes the state: a listing or a read at an offset delivers what it
counts in its result, a position is always delivered. -/
def TakesEffect : Call → Prop
  | .fdPread mem fd iovsPtr iovsLen offset nreadPtr =>
      (w.fdPread mem fd iovsPtr iovsLen offset nreadPtr).2.1.readU32 nreadPtr ≠ some 0
  | .fdReaddir mem fd bufferPtr bufferLength cookie bufferUsedPtr =>
      (w.fdReaddir mem fd bufferPtr bufferLength cookie bufferUsedPtr).1.readU32 bufferUsedPtr ≠
        some 0
  | .fdSeek .. => True
  | .fdTell .. => True
  | c => (w.outcome c).1 ≠ w

/-- Every call that succeeds and takes effect through a descriptor has its rights there. -/
def EnforcesRights (fd : Int) : Prop :=
  ∀ c right, (fd, right) ∈ c.requiredRights → w.Succeeds c → w.TakesEffect c → w.Holds fd right

/-- The way into the workspace on which `path_rename` does not ask for rights, and the preopened
numbers if there is something else in the table for them. -/
def UncheckedRename (fd : Int) : Prop :=
  w.packageRootBasePath fd = some [] ∨
    ((fd = workspaceFd ∨ fd = tmpFd) ∧ (w.openFile fd).isSome = true)

/-- What a descriptor needs for that: the rights that no call asks for, wherever something can be
done without them. -/
structure GuardsRights (fd : Int) : Prop where
  /-- A regular file with something left to read. -/
  read : ∀ file record writable offset, w.openFile fd = some file →
    file.kind = .file record writable offset → w.isDirectoryFd fd = false →
    w.host.offsets.get offset < (w.host.records.get record).bytes.length →
    hasRight file.rights rightFdRead = true
  /-- A descriptor with an offset. -/
  position : ∀ file, w.openFile fd = some file → (offset? file).isSome = true →
    hasRight file.rights rightFdSeek = true ∧ hasRight file.rights rightFdTell = true
  /-- A directory with something in it. -/
  listing : ∀ entries, w.directoryForFd fd = some entries → entries ≠ [] →
    w.Holds fd rightFdReaddir
  /-- A base directory of a mount that can be changed, with a path to a key that can be created. -/
  createDirectory : ∀ path mount base key, w.mutableBase fd path = .ok (mount, base) →
    w.resolveIn mount base path = .ok key → (w.mountOf mount).Allows (.createDir key) →
    w.Holds fd rightPathCreateDirectory
  unlinkFile : ∀ path mount base key, w.mutableBase fd path = .ok (mount, base) →
    w.resolveIn mount base path = .ok key → (w.mountOf mount).Allows (.removeFile key) →
    w.Holds fd rightPathUnlinkFile
  removeDirectory : ∀ path mount base key, w.mutableBase fd path = .ok (mount, base) →
    w.resolveIn mount base path = .ok key →
    (w.mountOf mount).checkRemoveDirectory base key = .ok () → w.Holds fd rightPathRemoveDirectory
  /-- An entry that is renamed where the rename does not ask, on its way out and in. -/
  renameSource : w.UncheckedRename fd → ∀ path newFd newPath mount e,
    w.Edits (.pathRename fd path newFd newPath) mount e → w.Holds fd rightPathRenameSource
  renameTarget : w.UncheckedRename fd → ∀ oldFd oldPath path mount e,
    w.Edits (.pathRename oldFd oldPath fd path) mount e → w.Holds fd rightPathRenameTarget

variable {w}

variable {fd iovsPtr iovsLen offset nreadPtr nwrittenPtr : Int} {file : OpenFile} {right : Rights}
    {mem : Memory} {base : Text} {c : Call} {mount : VirtualMount} {e : Mount.Edit ℕ}

theorem holds_of_openFile (hfile : w.openFile fd = some file)
    (hright : hasRight file.rights right = true) : w.Holds fd right :=
  ⟨w.openFileStat file, w.fdStat_of_openFile hfile, by rwa [w.rights_openFileStat]⟩

theorem holds_iff_of_openFile (hfile : w.openFile fd = some file) :
    w.Holds fd right ↔ hasRight file.rights right = true := by
  constructor
  · rintro ⟨stat, hstat, hright⟩
    rw [w.fdStat_of_openFile hfile] at hstat
    rwa [← Option.some.inj hstat, w.rights_openFileStat] at hright
  · exact holds_of_openFile hfile

/-- A number outside the table that holds a right among those it is built in with. -/
theorem holds_of_builtin (hfile : w.openFile fd = none) (hstat : w.builtinStat fd = some stat)
    (hright : hasRight stat.rights right = true) : w.Holds fd right :=
  ⟨stat, (w.fdStat_of_openFile_none hfile).trans hstat, hright⟩

variable (w)

/-! ### The calls that check -/

theorem holds_of_fdPread (h : (w.fdPread mem fd iovsPtr iovsLen offset nreadPtr).2.2 = .ok ()) :
    w.Holds fd rightFdRead := by
  unfold fdPread at h
  split at h
  · cases h
  split at h
  · cases h
  split at h
  · cases h
  next file hfile =>
    split at h
    · split at h
      · cases h
      next hcan => exact holds_of_openFile hfile (by simpa [OpenFile.canReadFile] using hcan)
    · cases h

/-- A descriptor that may be written holds the right to. -/
theorem hasRight_of_canWriteFile (h : ¬file.canWriteFile = false) :
    hasRight file.rights rightFdWrite = true := by
  rw [Bool.not_eq_false, OpenFile.canWriteFile, Bool.and_eq_true] at h
  exact h.2

theorem holds_of_fdPwrite (h : (w.fdPwrite mem fd iovsPtr iovsLen offset nwrittenPtr).2.2 = .ok ())
    : w.Holds fd rightFdWrite := by
  unfold fdPwrite at h
  split at h
  · cases h
  split at h
  · cases h
  split at h
  · cases h
  next file hfile =>
    split at h
    · split at h
      · cases h
      next hcan => exact holds_of_openFile hfile (hasRight_of_canWriteFile hcan)
    · cases h

/-- Storing the result of a failed call does not make it succeed. -/
theorem finishU32_error {ptr : Int} {value : ℕ} {failure : Failure}
    (h : (mem.finishU32 ptr value (.error failure)).2 = .ok ()) : False := by
  unfold Memory.finishU32 at h
  split at h <;> cases h

theorem hasRight_of_fdWritePipe
    (h : (w.fdWritePipe mem file direction pipe iovsPtr iovsLen nwrittenPtr).2.2 = .ok ()) :
    hasRight file.rights rightFdWrite = true := by
  unfold fdWritePipe at h
  split at h
  · cases h
  split at h
  · cases h
  split at h
  · cases h
  next hright => simpa using hright

theorem hasRight_of_fdWriteStdio
    (h : (w.fdWriteStdio mem file stdioFd iovsPtr iovsLen nwrittenPtr).2.2 = .ok ()) :
    hasRight file.rights rightFdWrite = true := by
  unfold fdWriteStdio at h
  split at h
  · exact (finishU32_error h).elim
  split at h
  · exact (finishU32_error h).elim
  next hright => simpa using hright

theorem holds_of_fdWrite (h : (w.fdWrite mem fd iovsPtr iovsLen nwrittenPtr).2.2 = .ok ()) :
    w.Holds fd rightFdWrite := by
  unfold fdWrite at h
  split at h
  next hnone =>
    split at h
    · exact (finishU32_error h).elim
    next hfd =>
      -- only the two output streams are left, which are built in with the right
      have hout : fd = stdoutFd ∨ fd = stderrFd := by
        by_contra hno
        exact hfd (not_or.1 hno)
      rcases hout with rfl | rfl <;> exact holds_of_builtin hnone rfl (by decide)
  next file hfile =>
    split at h
    · exact holds_of_openFile hfile (w.hasRight_of_fdWritePipe h)
    · exact holds_of_openFile hfile (w.hasRight_of_fdWriteStdio h)
    · exact (finishU32_error h).elim
    · split at h
      · exact (finishU32_error h).elim
      next hcan => exact holds_of_openFile hfile (hasRight_of_canWriteFile hcan)

theorem holds_of_fdAllocate {length : Int} (h : (w.fdAllocate fd offset length).2 = .ok ()) :
    w.Holds fd rightFdAllocate := by
  unfold fdAllocate at h
  split at h
  · cases h
  next file hfile =>
    split at h
    · cases h
    split at h
    · cases h
    next hcan =>
      rw [Bool.not_eq_false, OpenFile.canAllocateFile, Bool.and_eq_true] at hcan
      exact holds_of_openFile hfile hcan.2

theorem holds_of_fdFilestatSetSize {size : Int} (h : (w.fdFilestatSetSize fd size).2 = .ok ()) :
    w.Holds fd rightFdFilestatSetSize := by
  unfold fdFilestatSetSize at h
  split at h
  · cases h
  next file hfile =>
    split at h
    · cases h
    split at h
    · cases h
    next hcan =>
      rw [Bool.not_eq_false, OpenFile.canResizeFile, Bool.and_eq_true] at hcan
      exact holds_of_openFile hfile hcan.2

/-! ### Renaming -/

theorem holds_of_basePathForRight {isDirectory : OpenFile → Bool}
    (h : w.basePathForRight fd isDirectory right = .ok base) : w.Holds fd right := by
  unfold basePathForRight at h
  split at h
  next file hfile =>
    split at h
    · split at h
      · cases h
      split at h
      next hright => exact holds_of_openFile hfile hright
      · cases h
    · cases h
  · cases h

variable {w}

/-- The preopened numbers hold what their mounts can grant, unless the table has them. -/
theorem holds_of_preopened (hfd : fd = workspaceFd ∨ fd = tmpFd) (hchecked : ¬w.UncheckedRename fd)
    (hstat : w.builtinStat fd = some stat) (hright : hasRight stat.rights right = true) :
    w.Holds fd right := by
  refine holds_of_builtin ?_ hstat hright
  by_contra hfile
  exact hchecked (.inr ⟨hfd, Option.isSome_iff_ne_none.2 hfile⟩)

theorem holds_of_scratchBasePathForRight (hright : hasRight tmpRights right = true)
    (hchecked : ¬w.UncheckedRename fd) (h : w.scratchBasePathForRight fd right = .ok base) :
    w.Holds fd right := by
  unfold scratchBasePathForRight at h
  split at h
  next hfd =>
    subst hfd
    exact holds_of_preopened (.inr rfl) hchecked rfl hright
  · exact w.holds_of_basePathForRight h

theorem holds_of_workspaceBasePathForRightOrPathRequest {path : Text}
    (hright : hasRight writableWorkspaceRights right = true) (hchecked : ¬w.UncheckedRename fd)
    (h : w.workspaceBasePathForRightOrPathRequest fd path right = some (.ok base)) :
    w.Holds fd right := by
  unfold workspaceBasePathForRightOrPathRequest at h
  split at h
  · cases h
  next hwritable =>
    rw [Bool.not_eq_false] at hwritable
    split at h
    next base' hbase =>
      unfold workspaceBasePathForRight at hbase
      split at hbase
      next hfd =>
        subst hfd
        refine holds_of_preopened (.inl rfl) hchecked rfl ?_
        rw [hwritable]
        exact hright
      · exact w.holds_of_basePathForRight hbase
    · split at h
      · cases h
      -- the detour through the package root
      obtain ⟨b, hb, -⟩ := Option.map_eq_some_iff.1 h
      unfold workspaceCwdBasePathForPathRequest at hb
      split at hb
      · cases hb
      next hroot => exact absurd (.inl (not_ne_iff.1 hroot)) hchecked

/-- A rename that finds its keys has asked for the rights of its descriptors, or has gone where
it does not ask. -/
theorem holds_of_renameKeys {oldFd newFd : Int} {oldPath newPath : Text}
    {keys : VirtualMount × Text × Text}
    (h : w.renameKeys oldFd oldPath newFd newPath = .ok keys) :
    (¬w.UncheckedRename oldFd → w.Holds oldFd rightPathRenameSource) ∧
      (¬w.UncheckedRename newFd → w.Holds newFd rightPathRenameTarget) := by
  unfold renameKeys at h
  split at h
  next keys' hkeys =>
    unfold workspaceRenameKeys at hkeys
    split at hkeys
    · cases hkeys
    split at hkeys
    · cases hkeys
    · cases hkeys
    · cases hkeys
    next sourceBase targetBase hsource htarget =>
      exact ⟨fun hno => holds_of_workspaceBasePathForRightOrPathRequest (by decide) hno hsource,
        fun hno => holds_of_workspaceBasePathForRightOrPathRequest (by decide) hno htarget⟩
    · cases hkeys
  · cases h
  · split at h
    next keys' hkeys =>
      unfold scratchRenameKeys at hkeys
      split at hkeys
      · cases hkeys
      next sourceBase hsource =>
        split at hkeys
        · cases hkeys
        next targetBase htarget =>
          exact ⟨fun hno => holds_of_scratchBasePathForRight (by decide) hno hsource,
            fun hno => holds_of_scratchBasePathForRight (by decide) hno htarget⟩
    · cases h

variable (w)

/-! ### The calls that edit a mount -/

/-- An edit changes the state. -/
theorem perform_ne_self (h : w.Edits c mount e) : w.perform mount e ≠ w := by
  intro heq
  have hmount := mountOf_perform h
  rw [heq] at hmount
  exact Mount.apply_ne_self h.allows hmount.symm

/-- A call with the checks that accept its edit succeeds and makes it. -/
theorem outcome_of_edits (hc : EditsEntry c) (h : w.Edits c mount e) :
    w.Succeeds c ∧ w.call c = w.perform mount e := by
  unfold Succeeds outcome call
  rw [w.callResult_of_edits hc h]
  exact ⟨rfl, rfl⟩

variable {w}

/-- Enforced rights are there for every edit. -/
theorem EnforcesRights.edit (h : w.EnforcesRights fd) (he : w.Edits c mount e)
    (hright : (fd, right) ∈ c.requiredRights) : w.Holds fd right := by
  have hchanged := w.perform_ne_self he
  cases c with
  | pathCreateDirectory fd path =>
    obtain ⟨hok, hcall⟩ := w.outcome_of_edits (c := .pathCreateDirectory fd path) trivial he
    exact h _ right hright hok (ne_of_eq_of_ne hcall hchanged)
  | pathUnlinkFile fd path =>
    obtain ⟨hok, hcall⟩ := w.outcome_of_edits (c := .pathUnlinkFile fd path) trivial he
    exact h _ right hright hok (ne_of_eq_of_ne hcall hchanged)
  | pathRemoveDirectory fd path =>
    obtain ⟨hok, hcall⟩ := w.outcome_of_edits (c := .pathRemoveDirectory fd path) trivial he
    exact h _ right hright hok (ne_of_eq_of_ne hcall hchanged)
  | pathRename oldFd oldPath newFd newPath =>
    obtain ⟨hok, hcall⟩ :=
      w.outcome_of_edits (c := .pathRename oldFd oldPath newFd newPath) trivial he
    exact h _ right hright hok (ne_of_eq_of_ne hcall hchanged)
  | pathOpen | pathOpen2 => cases hright
  | _ => cases he

/-- Guarded rights are there for every call that edits a mount. -/
theorem GuardsRights.holds_of_editsEntry (h : w.GuardsRights fd) (hc : EditsEntry c)
    (hright : (fd, right) ∈ c.requiredRights) (hchanged : w.call c ≠ w) : w.Holds fd right := by
  obtain ⟨mount, e, he, -⟩ := (w.call_eq_perform hc).resolve_left hchanged
  have hedits := he
  cases he with
  | createDir hbase hkey hallow =>
    obtain ⟨rfl, rfl⟩ := Prod.mk.inj (mem_singleton.1 hright)
    exact h.createDirectory _ _ _ _ hbase hkey hallow
  | removeFile hbase hkey hallow =>
    obtain ⟨rfl, rfl⟩ := Prod.mk.inj (mem_singleton.1 hright)
    exact h.unlinkFile _ _ _ _ hbase hkey hallow
  | removeDir hbase hkey hallow =>
    obtain ⟨rfl, rfl⟩ := Prod.mk.inj (mem_singleton.1 hright)
    exact h.removeDirectory _ _ _ _ hbase hkey hallow
  | renameFile hkeys | renameDir hkeys =>
    -- a rename that asks finds the rights itself
    rcases mem_cons.1 hright with heq | hmem
    · obtain ⟨rfl, rfl⟩ := Prod.mk.inj heq
      by_cases hunchecked : w.UncheckedRename fd
      · exact h.renameSource hunchecked _ _ _ _ _ hedits
      · exact (holds_of_renameKeys hkeys).1 hunchecked
    · obtain ⟨rfl, rfl⟩ := Prod.mk.inj (mem_singleton.1 hmem)
      by_cases hunchecked : w.UncheckedRename fd
      · exact h.renameTarget hunchecked _ _ _ _ _ hedits
      · exact (holds_of_renameKeys hkeys).2 hunchecked
  | createFile | createFile2 => cases hright

variable (w)

/-! ### Reading -/

theorem setOffset_self (offset : ℕ) : w.setOffset offset (w.host.offsets.get offset) = w := by
  simp [setOffset, setHost, Heap.modify, Heap.get]

theorem hasRight_of_fdReadPipe
    (h : (w.fdReadPipe mem file direction pipe iovsPtr iovsLen nreadPtr).2.2 = .ok ()) :
    hasRight file.rights rightFdRead = true := by
  unfold fdReadPipe at h
  split at h
  · cases h
  split at h
  · cases h
  split at h
  · cases h
  next hright => simpa using hright

theorem hasRight_of_fdReadStdio
    (h : (w.fdReadStdio mem file stdioFd iovsPtr iovsLen nreadPtr).2.2 = .ok ()) :
    hasRight file.rights rightFdRead = true := by
  unfold fdReadStdio at h
  split at h
  · cases h
  split at h
  · cases h
  split at h
  · cases h
  next hright => simpa using hright

/-- A read of a file that changes the state has moved the offset over something. -/
theorem lt_length_of_readOpenFile {offset : ℕ}
    (h : (w.readOpenFile mem record offset iovsPtr iovsLen nreadPtr).1 ≠ w) :
    w.host.offsets.get offset < (w.host.records.get record).bytes.length := by
  by_contra hend
  refine h ?_
  unfold readOpenFile
  split
  · rfl
  next s hs =>
    have hdelivered := readIntoIovs_delivered hs
    rw [drop_eq_nil_of_le (not_lt.1 hend), take_nil] at hdelivered
    have htotal : s.total = 0 := by rw [Scatter.total, hdelivered, length_nil]
    simp only [htotal, Nat.add_zero, setOffset_self]

variable {w}

theorem GuardsRights.holds_of_fdRead (h : w.GuardsRights fd)
    (hok : (w.fdRead mem fd iovsPtr iovsLen nreadPtr).2.2 = .ok ())
    (hchanged : (w.fdRead mem fd iovsPtr iovsLen nreadPtr).1 ≠ w) : w.Holds fd rightFdRead := by
  unfold fdRead at hok hchanged
  split at hok
  next hfile => exact holds_of_openFile hfile (w.hasRight_of_fdReadPipe hok)
  next hfile => exact holds_of_openFile hfile (w.hasRight_of_fdReadStdio hok)
  · exact (finishU32_error hok).elim
  next record writable offset mount path rights fdflags hfile =>
    rw [hfile] at hchanged
    dsimp only at hchanged
    split at hok
    · exact (finishU32_error hok).elim
    next hdir =>
      rw [if_neg hdir] at hchanged
      exact holds_of_openFile hfile (h.read _ record writable offset hfile rfl
        (by simpa using hdir) (w.lt_length_of_readOpenFile hchanged))
  next hnone =>
    split at hok
    · exact (finishU32_error hok).elim
    split at hok
    · exact (finishU32_error hok).elim
    next hfd =>
      obtain rfl := not_ne_iff.1 hfd
      exact holds_of_builtin hnone rfl (by decide)

theorem EnforcesRights.read (h : w.EnforcesRights fd) {offset : ℕ} {writable : Bool}
    (hfile : w.openFile fd = some file) (hkind : file.kind = .file record writable offset)
    (hdir : w.isDirectoryFd fd = false)
    (hlt : w.host.offsets.get offset < (w.host.records.get record).bytes.length) :
    hasRight file.rights rightFdRead = true := by
  obtain ⟨kind, mount, path, rights, fdflags⟩ := file
  obtain rfl : kind = _ := hkind
  rw [← holds_iff_of_openFile hfile]
  obtain ⟨s, hs, htotal, hlength⟩ := readIntoIovs_iovMemory hlt
  have hread : w.fdRead iovMemory fd 8 1 16 =
      (w.setOffset offset (w.host.offsets.get offset + 1), s.mem.finishU32 16 1 (.ok ())) := by
    simp [fdRead, hfile, hdir, readOpenFile, hs, htotal]
  refine h (.fdRead iovMemory fd 8 1 16) _ (mem_singleton.2 rfl) ?_ ?_
  · simp [Succeeds, outcome, callResult, hread, Memory.finishU32, Memory.writeU32, hlength]
  · -- the offset has moved by one
    change (w.fdRead iovMemory fd 8 1 16).1 ≠ w
    rw [hread]
    intro heq
    have hoffset := congrArg (fun w' : World => w'.host.offsets.get offset) heq
    simp [setOffset, setHost] at hoffset

/-! ### Positions -/

theorem offset?_isSome_of_fdSeek {delta whence newOffsetPtr : Int}
    (h : (w.fdSeek mem fd delta whence newOffsetPtr).2.2 = .ok ()) :
    ∃ file, w.openFile fd = some file ∧ (offset? file).isSome = true := by
  unfold fdSeek at h
  split at h
  · cases h
  next file hfile =>
    split at h
    · cases h
    next offset hoffset => exact ⟨file, hfile, by rw [hoffset]; rfl⟩

theorem offset?_isSome_of_fdTell {offsetPtr : Int} (h : (w.fdTell mem fd offsetPtr).2.2 = .ok ()) :
    ∃ file, w.openFile fd = some file ∧ (offset? file).isSome = true := by
  unfold fdTell at h
  split at h
  · cases h
  next file hfile =>
    split at h
    · cases h
    next offset hoffset => exact ⟨file, hfile, by rw [hoffset]; rfl⟩

theorem EnforcesRights.position (h : w.EnforcesRights fd) (hfile : w.openFile fd = some file)
    (hoffset : (offset? file).isSome = true) :
    hasRight file.rights rightFdSeek = true ∧ hasRight file.rights rightFdTell = true := by
  obtain ⟨offset, hoffset⟩ := Option.isSome_iff_exists.1 hoffset
  rw [← holds_iff_of_openFile hfile, ← holds_iff_of_openFile hfile]
  constructor
  · refine h (.fdSeek iovMemory fd 0 0 16) _ (mem_singleton.2 rfl) ?_ trivial
    simp [Succeeds, outcome, callResult, fdSeek, hfile, hoffset, resolveFileSeekOffset, seekBase,
      maxSafeInteger, Memory.writeU64, iovMemory]
  · refine h (.fdTell iovMemory fd 16) _ (mem_singleton.2 rfl) ?_ trivial
    simp [Succeeds, outcome, callResult, fdTell, hfile, hoffset, Memory.writeU64, iovMemory]

/-! ### Listings -/

/-- A listing that counts something has listed an entry. -/
theorem exists_entry_of_fdReaddir
    {bufferPtr bufferLength cookie bufferUsedPtr : Int}
    (hok : (w.fdReaddir mem fd bufferPtr bufferLength cookie bufferUsedPtr).2 = .ok ())
    (hused : (w.fdReaddir mem fd bufferPtr bufferLength cookie bufferUsedPtr).1.readU32
      bufferUsedPtr ≠ some 0) :
    ∃ entries, w.directoryForFd fd = some entries ∧ entries ≠ [] := by
  unfold fdReaddir at hok hused
  split at hok
  · cases hok
  next entries hentries =>
    refine ⟨entries, hentries, ?_⟩
    rintro rfl
    rw [hentries] at hused
    split at hok
    · cases hok
    next start hstart =>
      rw [hstart] at hused
      -- nothing to list, so nothing is counted
      simp only [drop_nil, direntOutput, length_nil] at hok hused
      unfold Memory.finishU32 at hok hused
      split at hok
      next mem' hmem =>
        rw [hmem] at hused
        exact hused (Memory.readU32_writeU32 _ hmem)
      · cases hok

theorem length_direntBytes (entry : DirEntry) (nextCookie : ℕ) :
    (direntBytes entry nextCookie).length = 24 := by
  simp [direntBytes, littleEndian]

theorem EnforcesRights.listing (h : w.EnforcesRights fd) {entries : List DirEntry}
    (hentries : w.directoryForFd fd = some entries) (hne : entries ≠ []) :
    w.Holds fd rightFdReaddir := by
  obtain ⟨entry, rest, rfl⟩ := exists_cons_of_ne_nil hne
  -- a buffer of one byte takes the first byte of the first entry
  have houtput : direntOutput 1 (entry :: rest) 1 [] = (direntBytes entry 1).take 1 := by
    simp [direntOutput, length_direntBytes]
  have hstart : readdirStartIndex 0 = some 0 := by decide
  have hreaddir : w.fdReaddir iovMemory fd 0 1 0 16 =
      (iovMemory.store 0 ((direntBytes entry 1).take 1)).finishU32 16 1 (.ok ()) := by
    simp [fdReaddir, hentries, hstart, houtput, length_direntBytes, iovMemory, toUint32]
  obtain ⟨mem, hmem⟩ : ∃ mem, (iovMemory.store 0 ((direntBytes entry 1).take 1)).writeU32 16 1 =
      some mem :=
    Option.isSome_iff_exists.1 ((Memory.writeU32_isSome_iff _ _ _).2 (by simp [iovMemory]))
  rw [Memory.finishU32, hmem] at hreaddir
  refine h (.fdReaddir iovMemory fd 0 1 0 16) _ (mem_singleton.2 rfl) ?_ ?_
  · simp [Succeeds, outcome, callResult, hreaddir]
  · change (w.fdReaddir iovMemory fd 0 1 0 16).1.readU32 16 ≠ some 0
    rw [hreaddir, Memory.readU32_writeU32 _ hmem]
    decide

/-! ### All calls -/

/-- In every state, every call through a descriptor needs its rights exactly when the descriptor
has the rights that no call asks for, wherever something can be done without them. -/
theorem enforcesRights_iff (w : World) (fd : Int) : w.EnforcesRights fd ↔ w.GuardsRights fd := by
  constructor
  · intro h
    exact {
      read := fun file record writable offset hfile hkind hdir hlt => h.read hfile hkind hdir hlt
      position := fun file hfile hoffset => h.position hfile hoffset
      listing := fun entries hentries hne => h.listing hentries hne
      createDirectory := fun path mount base key hbase hkey hallow =>
        h.edit (.createDir hbase hkey hallow) (mem_singleton.2 rfl)
      unlinkFile := fun path mount base key hbase hkey hallow =>
        h.edit (.removeFile hbase hkey hallow) (mem_singleton.2 rfl)
      removeDirectory := fun path mount base key hbase hkey hallow =>
        h.edit (.removeDir hbase hkey hallow) (mem_singleton.2 rfl)
      renameSource := fun _ path newFd newPath mount e he => h.edit he mem_cons_self
      renameTarget := fun _ oldFd oldPath path mount e he =>
        h.edit he (mem_cons_of_mem _ (mem_singleton.2 rfl)) }
  · intro h c right hright hok heffect
    cases c with
    | fdRead mem fd' iovsPtr iovsLen nreadPtr =>
      obtain ⟨rfl, rfl⟩ := Prod.mk.inj (mem_singleton.1 hright)
      exact h.holds_of_fdRead hok heffect
    | fdPread mem fd' iovsPtr iovsLen offset nreadPtr =>
      obtain ⟨rfl, rfl⟩ := Prod.mk.inj (mem_singleton.1 hright)
      exact w.holds_of_fdPread hok
    | fdWrite mem fd' iovsPtr iovsLen nwrittenPtr =>
      obtain ⟨rfl, rfl⟩ := Prod.mk.inj (mem_singleton.1 hright)
      exact w.holds_of_fdWrite hok
    | fdPwrite mem fd' iovsPtr iovsLen offset nwrittenPtr =>
      obtain ⟨rfl, rfl⟩ := Prod.mk.inj (mem_singleton.1 hright)
      exact w.holds_of_fdPwrite hok
    | fdSeek mem fd' delta whence newOffsetPtr =>
      obtain ⟨rfl, rfl⟩ := Prod.mk.inj (mem_singleton.1 hright)
      obtain ⟨file, hfile, hoffset⟩ := offset?_isSome_of_fdSeek hok
      exact holds_of_openFile hfile (h.position file hfile hoffset).1
    | fdTell mem fd' offsetPtr =>
      obtain ⟨rfl, rfl⟩ := Prod.mk.inj (mem_singleton.1 hright)
      obtain ⟨file, hfile, hoffset⟩ := offset?_isSome_of_fdTell hok
      exact holds_of_openFile hfile (h.position file hfile hoffset).2
    | fdReaddir mem fd' bufferPtr bufferLength cookie bufferUsedPtr =>
      obtain ⟨rfl, rfl⟩ := Prod.mk.inj (mem_singleton.1 hright)
      obtain ⟨entries, hentries, hne⟩ := exists_entry_of_fdReaddir hok heffect
      exact h.listing entries hentries hne
    | fdAllocate fd' offset length =>
      obtain ⟨rfl, rfl⟩ := Prod.mk.inj (mem_singleton.1 hright)
      exact w.holds_of_fdAllocate hok
    | fdFilestatSetSize fd' size =>
      obtain ⟨rfl, rfl⟩ := Prod.mk.inj (mem_singleton.1 hright)
      exact w.holds_of_fdFilestatSetSize hok
    | pathCreateDirectory fd' path =>
      exact h.holds_of_editsEntry (c := .pathCreateDirectory fd' path) trivial hright heffect
    | pathUnlinkFile fd' path =>
      exact h.holds_of_editsEntry (c := .pathUnlinkFile fd' path) trivial hright heffect
    | pathRemoveDirectory fd' path =>
      exact h.holds_of_editsEntry (c := .pathRemoveDirectory fd' path) trivial hright heffect
    | pathRename oldFd oldPath newFd newPath =>
      exact h.holds_of_editsEntry
        (c := .pathRename oldFd oldPath newFd newPath) trivial hright heffect
    | _ => cases hright

end World

/-- A file of one byte is opened with every right, and then all of them are taken away. -/
def stripFile : List Event :=
  [.call (.pathOpen 3 0 "f".toList 0 0 0 0), .call (.fdFdstatSetRights 5 0 0)]

/-- A run that has done so. -/
def strippedFile : System :=
  runAll System.step (System.boot (some ⟨[], [⟨"f".toList, [7], 0⟩]⟩) [] [] none []) stripFile

/-- The descriptor without rights still delivers the byte. -/
theorem not_enforcesRights_strippedFile :
    Reach System.step (System.boot (some ⟨[], [⟨"f".toList, [7], 0⟩]⟩) [] [] none []) strippedFile ∧
      ¬strippedFile.world.EnforcesRights 5 := by
  refine ⟨reach_runAll _ _, fun h => ?_⟩
  have hfile : strippedFile.world.openFile 5 =
      some ⟨.file 0 true 0, some .workspace, some "f".toList, 0, 0⟩ := by decide
  exact absurd (h.read hfile rfl (by decide) (by decide)) (by decide)

end WasmHost

import WasmHost.Wasi.Effects

/-!
# What `path_open` grants

`World.openGrant` decides from the state before the call whether `path_open` opens a descriptor,
which rights the descriptor gets and whether a file is created for it. `World.pathOpen_decides`
says that the call does exactly that. The rights of the directory it opens through do not occur
in the decision.
-/

namespace WasmHost

open OrdMap

/-- The base rights and the inheriting rights of a descriptor. -/
def OpenFile.granted (file : OpenFile) : Rights × Rights :=
  match file.kind with
  | .directory inheriting _ _ => (file.rights, inheriting)
  | _ => (file.rights, 0)

/-- What a successful `path_open` gives: the rights of the new descriptor, the rights it passes on,
and whether its file was created for it. -/
structure Grant where
  rights : Rights
  inheriting : Rights
  creates : Bool
  deriving DecidableEq, Repr

namespace World

/-- Some mount has a file that it did not have before. -/
def CreatesFile (w w' : World) : Prop :=
  ∃ mount key, (w.mountOf mount).files.has key = false ∧ (w'.mountOf mount).files.has key = true

/-- The descriptor `fd` is what was granted. -/
structure Grants (w w' : World) (fd : Int) (g : Grant) : Prop where
  rights : ∃ file, w'.openFile fd = some file ∧ file.granted = (g.rights, g.inheriting)
  creates : g.creates = true ↔ CreatesFile w w'

/-- The result of opening is as decided. -/
def Decides (w : World) (result : OpenResult) : Except Errno Grant → Prop
  | .error errno => result = (w, .error errno)
  | .ok g => ∃ w' fd, result = (w', .ok fd) ∧ Grants w w' fd g

/-! ### The decision -/

/-- The decision of the helpers that open a directory. -/
def directoryGrant (m : Mount ℕ) (rootExists : Bool) (path : Text)
    (requested requestable inheriting inheritable : Rights) (fdflags : Flags) :
    Except Errno Grant :=
  if fdflags ≠ 0 then .error .inval
  else if allowsRights requested requestable = false ∨
      allowsRights inheriting inheritable = false then .error .notcapable
  else
    match checkOpenDirectory m rootExists path with
    | .error errno => .error errno
    | .ok () => .ok ⟨requested, inheriting, false⟩

/-- The decision about a regular file of `/tmp` or a writable workspace. -/
def mountedFileGrant (m : Mount ℕ) (path : Text) (oflags : Flags) (rightsBase : Rights) :
    Except Errno Grant :=
  let requestedRights := grantRights rightsBase scratchFileRights
  let wantsWrite := hasRight requestedRights (rightFdWrite ||| rightFdAllocate)
  let wantsCreate := hasFlag oflags oflagsCreat
  let wantsTruncate := hasFlag oflags oflagsTrunc
  if (wantsCreate || wantsTruncate) = true ∧ wantsWrite = false then .error .notcapable
  else
    match m.checkOpenFile path with
    | .error errno => .error errno
    | .ok () =>
        if m.files.has path = false then
          if wantsCreate = false then .error .noent else .ok ⟨requestedRights, 0, true⟩
        else if wantsCreate = true ∧ hasFlag oflags oflagsExcl = true then .error .exist
        else .ok ⟨requestedRights, 0, false⟩

variable (w : World) {result : OpenResult} {d : Except Errno Grant} {w' : World} {file : OpenFile}

/-- The decision below a directory of `/tmp` or of a writable workspace. -/
def mountedGrant (mount : VirtualMount) (basePath path : Text) (oflags : Flags)
    (rightsBase rightsInheriting : Rights) (fdflags : Flags) : Except Errno Grant :=
  if hasFlag fdflags (~~~fdflagsAppend) = true then .error .inval
  else
    match w.resolveIn mount basePath path with
    | .error errno => .error errno
    | .ok key =>
        if hasFlag oflags oflagsDirectory = true then
          match mount with
          | .workspace =>
              directoryGrant w.workspaceMount true key
                (grantRights rightsBase writableWorkspaceRights) writableWorkspaceRights
                (rightsInheriting &&& scratchFileRights) scratchFileRights fdflags
          | .scratch =>
              directoryGrant w.runtime.scratch false key (grantRights rightsBase tmpRights)
                tmpRights (rightsInheriting &&& scratchFileRights) scratchFileRights fdflags
        else mountedFileGrant (w.mountOf mount) key oflags rightsBase

/-- What a read-only directory is granted. -/
def readOnlyDirectoryGrant (path : Text) (requestedRights rightsInheriting : Rights)
    (fdflags : Flags) : Except Errno Grant :=
  directoryGrant w.workspaceMount true path (grantRights requestedRights workspaceRights)
    workspaceRights (rightsInheriting &&& regularFileRights) regularFileRights fdflags

/-- What the directory of a mount is granted. -/
def virtualMountGrant (mount : VirtualMount) (path : Text) (oflags : Flags)
    (rightsBase rightsInheriting : Rights) (fdflags : Flags) : Except Errno Grant :=
  if path ≠ [] ∧ (w.mountOf mount).pathKind path ≠ some .directory then .error .notcapable
  else if hasFlag oflags mutatingOflags = true then .error .notcapable
  else
    match mount with
    | .workspace =>
        if w.writable then
          directoryGrant w.workspaceMount true path
            (grantRights rightsBase writableWorkspaceRights) writableWorkspaceRights
            (rightsInheriting &&& scratchFileRights) scratchFileRights fdflags
        else
          w.readOnlyDirectoryGrant path (grantRights rightsBase workspaceRights)
            (rightsInheriting &&& regularFileRights) fdflags
    | .scratch =>
        directoryGrant w.runtime.scratch false path (grantRights rightsBase tmpRights) tmpRights
          (rightsInheriting &&& scratchFileRights) scratchFileRights fdflags

/-- What a path below the package root is granted. -/
def packageRootGrant (basePath path : Text) (oflags : Flags) (rightsBase rightsInheriting : Rights)
    (fdflags : Flags) : Except Errno Grant :=
  match rootVirtualMountPath basePath path with
  | .error errno => .error errno
  | .ok (some (mount, key)) =>
    w.virtualMountGrant mount key oflags rightsBase rightsInheriting fdflags
  | .ok none =>
      match resolvePackageRootPath basePath path with
      | .error errno => .error errno
      | .ok key =>
          if hasFlag oflags oflagsDirectory = true then
            directoryGrant w.host.packageRoot.mount false key rightsBase workspaceRights
              rightsInheriting regularFileRights fdflags
          else if hasFlag oflags mutatingOflags = true ∨ hasFlag fdflags fdflagsAppend = true ∨
              requestsWriteRights rightsBase = true ∨
              requestsWriteRights rightsInheriting = true then .error .notcapable
          else if allowsRights rightsBase regularFileRights = false then .error .notcapable
          else if w.host.packageRoot.mount.dirs.has key = true ∨
              w.host.packageRoot.mount.pathHasChildren key = true then .error .isdir
          else if w.host.packageRoot.mount.files.has key = false then .error .noent
          else .ok ⟨if rightsBase = 0 then regularFileRights else rightsBase, 0, false⟩

/-- What a path of the read-only workspace is granted. -/
def readOnlyGrant (basePath path : Text) (oflags : Flags) (rightsBase rightsInheriting : Rights)
    (fdflags : Flags) : Except Errno Grant :=
  match resolveScratchPath basePath path true with
  | .error errno => .error errno
  | .ok key =>
      if hasFlag oflags oflagsDirectory = true then
        if hasFlag oflags mutatingOflags = true ∨ hasFlag fdflags fdflagsAppend = true then
          .error .notcapable
        else w.readOnlyDirectoryGrant key rightsBase rightsInheriting fdflags
      else if hasFlag oflags mutatingOflags = true ∨ hasFlag fdflags fdflagsAppend = true ∨
          requestsWriteRights rightsBase = true ∨
          requestsWriteRights rightsInheriting = true then .error .notcapable
      else if key = [] then .error .notcapable
      else if w.workspaceMount.files.has key = false then .error .noent
      else .ok ⟨regularFileRights, 0, false⟩

/-- What a path outside the workspace is granted. -/
def elsewhereGrant (fd : Int) (path : Text) (oflags : Flags) (rightsBase rightsInheriting : Rights)
    (fdflags : Flags) : Except Errno Grant :=
  match w.scratchBasePath fd with
  | some base => w.mountedGrant .scratch base path oflags rightsBase rightsInheriting fdflags
  | none =>
      match w.packageRootBasePath fd with
      | some base => w.packageRootGrant base path oflags rightsBase rightsInheriting fdflags
      | none =>
          match w.workspaceBasePath fd with
          | some base => w.readOnlyGrant base path oflags rightsBase rightsInheriting fdflags
          | none => .error (w.knownFd fd .notcapable)

/-- The decision of `path_open`. -/
def openGrant (fd : Int) (dirflags : Flags) (path : Text) (oflags : Flags)
    (rightsBase rightsInheriting : Rights) (fdflags : Flags) : Except Errno Grant :=
  if hasFlag dirflags (~~~lookupSymlinkFollow) = true then .error .inval
  else
    match w.mutableWorkspaceBasePath fd with
    | some base => w.mountedGrant .workspace base path oflags rightsBase rightsInheriting fdflags
    | none =>
        match (if w.writable then w.workspaceCwdBasePathForPathRequest fd path else none) with
        | none => w.elsewhereGrant fd path oflags rightsBase rightsInheriting fdflags
        | some base =>
            let opened := w.mountedGrant .workspace base path oflags rightsBase rightsInheriting
              fdflags
            if opened = .error .noent ∧
                pathOpenRequiresWorkspace oflags rightsBase rightsInheriting fdflags = false then
              w.elsewhereGrant fd path oflags rightsBase rightsInheriting fdflags
            else opened

/-! ### The call decides so -/

/-- Both sides branch alike. -/
theorem decides_ite {w : World} {c : Prop} [Decidable c] {result' : OpenResult}
    {d' : Except Errno Grant} (h : c → Decides w result d) (h' : ¬c → Decides w result' d') :
    Decides w (if c then result else result') (if c then d else d') := by
  by_cases hc : c
  · rw [if_pos hc, if_pos hc]
    exact h hc
  · rw [if_neg hc, if_neg hc]
    exact h' hc

theorem decides_error (w : World) (errno : Errno) : Decides w (w, .error errno) (.error errno) :=
  rfl

/-- A descriptor opened after nothing, or after the creation of its file. -/
theorem decides_openDescriptor {w : World} (offset : ℕ) {g : Grant}
    (hrights : file.granted = (g.rights, g.inheriting))
    (hcreates : g.creates = true ↔ CreatesFile w w') :
    Decides w ((w'.allocOffset offset).openDescriptor file) (.ok g) := by
  refine ⟨(w'.allocOffset offset).pushOpenFile file, w'.runtime.nextFileFd, rfl,
    ⟨file, ?_, hrights⟩,
    ?_⟩
  · exact get_set_self _ _ _
  · rw [hcreates]
    constructor
    all_goals
      rintro ⟨mount, key, hno, hyes⟩
      exact ⟨mount, key, hno, by cases mount <;> exact hyes⟩

/-- Nothing is created where the mounts stay as they are. -/
theorem not_createsFile_of_mountOf {w : World} (h : ∀ mount, w'.mountOf mount = w.mountOf mount) :
    ¬CreatesFile w w' := by
  rintro ⟨mount, key, hno, hyes⟩
  rw [h, hno] at hyes
  cases hyes

theorem not_createsFile_self (w : World) : ¬CreatesFile w w :=
  not_createsFile_of_mountOf fun _ => rfl

/-- Opening without creating grants the rights of the new descriptor. -/
theorem decides_open {w : World} (offset : ℕ) {rights inheriting : Rights}
    (hrights : file.granted = (rights, inheriting)) :
    Decides w ((w.allocOffset offset).openDescriptor file) (.ok ⟨rights, inheriting, false⟩) :=
  decides_openDescriptor offset hrights (iff_of_false Bool.false_ne_true w.not_createsFile_self)

/-- The helpers that open a directory differ in their masks and mounts only. -/
theorem decides_directory (m : Mount ℕ) (rootExists : Bool) (path : Text)
    (mount : Option MountName) (requested requestable inheriting inheritable : Rights)
    (fdflags : Flags) :
    Decides w
      (if fdflags ≠ 0 then (w, .error .inval)
        else if allowsRights requested requestable = false ∨
            allowsRights inheriting inheritable = false then (w, .error .notcapable)
        else
          match checkOpenDirectory m rootExists path with
          | .error errno => (w, .error errno)
          | .ok () => w.openDirectoryDescriptor path mount requested inheriting fdflags)
      (directoryGrant m rootExists path requested requestable inheriting inheritable fdflags) := by
  unfold directoryGrant
  refine decides_ite (fun _ => w.decides_error _) fun _ => ?_
  refine decides_ite (fun _ => w.decides_error _) fun _ => ?_
  cases checkOpenDirectory m rootExists path with
  | error errno => exact w.decides_error errno
  | ok => exact decides_open 0 rfl

/-- The masks of a read-only workspace directory never reject a request. -/
theorem decides_openReadOnlyWorkspaceDirectory (path : Text) (requested inheriting : Rights)
    (fdflags : Flags) :
    Decides w (w.openReadOnlyWorkspaceDirectory path requested inheriting fdflags)
      (w.readOnlyDirectoryGrant path requested inheriting fdflags) := by
  have hmasks : ¬(allowsRights (grantRights requested workspaceRights) workspaceRights = false ∨
      allowsRights (inheriting &&& regularFileRights) regularFileRights = false) := by
    rw [allowsRights_grantRights, allowsRights_and_right]
    simp
  have hdirectory := w.decides_directory w.workspaceMount true path (some .workspace)
    (grantRights requested workspaceRights) workspaceRights (inheriting &&& regularFileRights)
    regularFileRights fdflags
  rw [if_neg hmasks] at hdirectory
  exact hdirectory

/-- A created file is new to its mount. -/
theorem createsFile_createFile {mount : VirtualMount} {path : Text}
    (h : (w.mountOf mount).files.get path = none) : CreatesFile w (w.createFile mount path) :=
  ⟨mount, path, ((w.mountOf mount).files.has_eq_false_iff path).2 h,
    has_of_get (w.get_createFile mount path)⟩

variable (path : Text) (oflags : Flags) (rightsBase rightsInheriting : Rights) (fdflags : Flags)

theorem decides_openMountedFile (mount : VirtualMount) :
    Decides w (w.openMountedFile mount path oflags rightsBase fdflags)
      (mountedFileGrant (w.mountOf mount) path oflags rightsBase) := by
  unfold openMountedFile mountedFileGrant
  refine decides_ite (fun _ => w.decides_error _) fun _ => ?_
  cases (w.mountOf mount).checkOpenFile path with
  | error errno => exact w.decides_error errno
  | ok =>
    cases hget : (w.mountOf mount).files.get path with
    | none =>
      rw [if_pos (((w.mountOf mount).files.has_eq_false_iff path).2 hget)]
      refine decides_ite (fun _ => w.decides_error _) fun _ => ?_
      exact decides_openDescriptor _ rfl (iff_of_true rfl (w.createsFile_createFile hget))
    | some record =>
      have hhas := has_of_get hget
      rw [if_neg (ne_of_eq_of_ne hhas (by decide))]
      refine decides_ite (fun _ => w.decides_error _) fun _ => ?_
      -- truncating a file that is there creates nothing
      refine decides_openDescriptor _ rfl (iff_of_false Bool.false_ne_true ?_)
      split
      · exact not_createsFile_of_mountOf fun m => w.mountOf_truncateFile mount m record
      · exact w.not_createsFile_self

theorem decides_openScratchFile (basePath : Text) :
    Decides w (w.openScratchFile basePath path oflags rightsBase rightsInheriting fdflags)
      (w.mountedGrant .scratch basePath path oflags rightsBase rightsInheriting fdflags) := by
  unfold openScratchFile mountedGrant resolveIn
  refine decides_ite (fun _ => w.decides_error _) fun _ => ?_
  cases resolveMountedPath basePath path tmpPreopenPath false false with
  | error errno => exact w.decides_error errno
  | ok => exact decides_ite (fun _ => w.decides_directory ..) fun _ => w.decides_openMountedFile ..

theorem decides_openWorkspaceFile (basePath : Text) :
    Decides w (w.openWorkspaceFile basePath path oflags rightsBase rightsInheriting fdflags)
      (w.mountedGrant .workspace basePath path oflags rightsBase rightsInheriting fdflags) := by
  unfold openWorkspaceFile mountedGrant resolveIn
  refine decides_ite (fun _ => w.decides_error _) fun _ => ?_
  cases resolveMountedPath basePath path workspacePreopenPath w.writable false with
  | error errno => exact w.decides_error errno
  | ok => exact decides_ite (fun _ => w.decides_directory ..) fun _ => w.decides_openMountedFile ..

theorem decides_openVirtualMount (mount : VirtualMount) :
    Decides w (w.openVirtualMount mount path oflags rightsBase rightsInheriting fdflags)
      (w.virtualMountGrant mount path oflags rightsBase rightsInheriting fdflags) := by
  unfold openVirtualMount virtualMountGrant
  refine decides_ite (fun _ => w.decides_error _) fun _ => ?_
  refine decides_ite (fun _ => w.decides_error _) fun _ => ?_
  cases mount with
  | workspace =>
    exact decides_ite (fun _ => w.decides_directory ..)
      fun _ => w.decides_openReadOnlyWorkspaceDirectory ..
  | scratch => exact w.decides_directory ..

theorem decides_openPackageRootPath (basePath : Text) :
    Decides w (w.openPackageRootPath basePath path oflags rightsBase rightsInheriting fdflags)
      (w.packageRootGrant basePath path oflags rightsBase rightsInheriting fdflags) := by
  unfold openPackageRootPath packageRootGrant
  cases rootVirtualMountPath basePath path with
  | error errno => exact w.decides_error errno
  | ok virtual =>
    cases virtual with
    | some => exact w.decides_openVirtualMount ..
    | none =>
      cases resolvePackageRootPath basePath path with
      | error errno => exact w.decides_error errno
      | ok key =>
        refine decides_ite (fun _ => w.decides_directory ..) fun _ => ?_
        refine decides_ite (fun _ => w.decides_error _) fun _ => ?_
        refine decides_ite (fun _ => w.decides_error _) fun _ => ?_
        refine decides_ite (fun _ => w.decides_error _) fun _ => ?_
        cases hget : w.host.packageRoot.mount.files.get key with
        | none =>
          rw [if_pos ((has_eq_false_iff _ _).2 hget)]
          exact w.decides_error _
        | some =>
          rw [if_neg (ne_of_eq_of_ne (has_of_get hget) (by decide))]
          exact decides_open _ rfl

theorem decides_openReadOnlyWorkspacePath (basePath : Text) :
    Decides w
      (w.openReadOnlyWorkspacePath basePath path oflags rightsBase rightsInheriting fdflags)
      (w.readOnlyGrant basePath path oflags rightsBase rightsInheriting fdflags) := by
  unfold openReadOnlyWorkspacePath readOnlyGrant
  cases resolveScratchPath basePath path true with
  | error errno => exact w.decides_error errno
  | ok key =>
    refine decides_ite (fun _ => ?_) fun _ => ?_
    · exact decides_ite (fun _ => w.decides_error _)
        fun _ => w.decides_openReadOnlyWorkspaceDirectory ..
    · refine decides_ite (fun _ => w.decides_error _) fun _ => ?_
      refine decides_ite (fun _ => w.decides_error _) fun _ => ?_
      cases hget : w.workspaceMount.files.get key with
      | none =>
        rw [if_pos ((has_eq_false_iff _ _).2 hget)]
        exact w.decides_error _
      | some =>
        rw [if_neg (ne_of_eq_of_ne (has_of_get hget) (by decide))]
        exact decides_open _ rfl

theorem decides_pathOpenElsewhere (fd : Int) :
    Decides w (w.pathOpenElsewhere fd path oflags rightsBase rightsInheriting fdflags)
      (w.elsewhereGrant fd path oflags rightsBase rightsInheriting fdflags) := by
  unfold pathOpenElsewhere elsewhereGrant
  cases w.scratchBasePath fd with
  | some => exact w.decides_openScratchFile ..
  | none =>
    cases w.packageRootBasePath fd with
    | some => exact w.decides_openPackageRootPath ..
    | none =>
      cases w.workspaceBasePath fd with
      | some => exact w.decides_openReadOnlyWorkspacePath ..
      | none => exact w.decides_error _

/-- The error that was decided is the error of the call. -/
theorem Decides.error_iff {w : World} (h : Decides w result d) (errno : Errno) :
    result.2 = .error errno ↔ d = .error errno := by
  cases d with
  | error e =>
    have hresult : result = (w, .error e) := h
    rw [hresult]
    simp
  | ok =>
    obtain ⟨w', fd, hresult, -⟩ := h
    rw [hresult]
    simp

/-- `path_open` opens a descriptor exactly when it is decided, with the rights that are decided,
and leaves the state alone otherwise. -/
theorem pathOpen_decides (fd : Int) (dirflags : Flags) :
    Decides w (w.pathOpen fd dirflags path oflags rightsBase rightsInheriting fdflags)
      (w.openGrant fd dirflags path oflags rightsBase rightsInheriting fdflags) := by
  unfold pathOpen openGrant
  refine decides_ite (fun _ => w.decides_error _) fun _ => ?_
  cases w.mutableWorkspaceBasePath fd with
  | some => exact w.decides_openWorkspaceFile ..
  | none =>
    cases (if w.writable = true then w.workspaceCwdBasePathForPathRequest fd path else none) with
    | none => exact w.decides_pathOpenElsewhere ..
    | some base =>
      have hopened := w.decides_openWorkspaceFile path oflags rightsBase rightsInheriting
        fdflags base
      simp only [hopened.error_iff .noent]
      exact decides_ite (fun _ => w.decides_pathOpenElsewhere ..) fun _ => hopened

end World

end WasmHost

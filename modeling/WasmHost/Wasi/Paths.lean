import WasmHost.Text
import WasmHost.Wasi.Io

/-!
# Path calls

`path_open`, `path_create_directory`, `path_unlink_file`, `path_remove_directory`, `path_rename`,
`path_filestat_get`, `chdir` and `fd_readdir`. A call first finds the mount and the base directory
that its descriptor stands for, then resolves the path text to a key of that mount, checks the
mount, and edits it. The text arguments are already decoded, and `path_open` returns the number
of the new descriptor.

`/tmp` and a writable `/workspace` have near-identical code, so what they share is written once
with the mount as a parameter; where one of them does more (detaching descriptors, marking the
workspace dirty) each has its own body.
-/

namespace WasmHost

namespace World

variable (w : World)

/-! ### Editing a mount -/

/-- The mount behind a path. -/
def mountOf : VirtualMount → Mount ℕ
  | .workspace => w.workspaceMount
  | .scratch => w.runtime.scratch

/-- Change the map of files of a mount in place. -/
def modifyFiles (mount : VirtualMount) (f : OrdMap Text ℕ → OrdMap Text ℕ) : World :=
  match mount with
  | .workspace =>
      w.setHost { w.host with fileMaps := w.host.fileMaps.modify w.runtime.files f }
  | .scratch =>
      { w with runtime :=
          { w.runtime with
            scratch := { w.runtime.scratch with files := f w.runtime.scratch.files } } }

/-- Change the set of directories of a mount in place. -/
def modifyDirs (mount : VirtualMount) (f : OrdSet Text → OrdSet Text) : World :=
  match mount with
  | .workspace =>
      w.setHost { w.host with dirSets := w.host.dirSets.modify w.runtime.workspaceDirs f }
  | .scratch =>
      { w with runtime :=
          { w.runtime with
            scratch := { w.runtime.scratch with dirs := f w.runtime.scratch.dirs } } }

/-- Replace the maps of a mount by new ones. The workspace record gets the new ones too. -/
def replaceMount (mount : VirtualMount) (m : Mount ℕ) : World :=
  match mount with
  | .workspace =>
      { host :=
          { w.host with
            fileMaps := w.host.fileMaps.alloc m.files
            dirSets := w.host.dirSets.alloc m.dirs
            workspace :=
              { w.host.workspace with
                files := w.host.fileMaps.next
                dirs := w.host.dirSets.next } }
        runtime :=
          { w.runtime with
            files := w.host.fileMaps.next
            workspaceDirs := w.host.dirSets.next } }
  | .scratch => { w with runtime := { w.runtime with scratch := m } }

/-- Only the workspace keeps a dirty mark. -/
def markDirty (mount : VirtualMount) : World :=
  match mount with
  | .workspace => w.markWorkspaceDirty
  | .scratch => w

/-- A new file record. -/
def allocRecord (record : FileRecord) : World :=
  w.setHost { w.host with records := w.host.records.alloc record }

/-- Changes every open file. -/
def mapOpenFiles (f : OpenFile → OpenFile) : World :=
  w.setOpenFiles (w.runtime.openFiles.mapVals fun _ => f)

/-! ### Base directories -/

/-- The scratch directory of a descriptor. -/
def scratchBasePath (fd : Int) : Option Text :=
  if fd = tmpFd then some []
  else
    match w.openFile fd with
    | some file => if file.isOpenScratchDirectory then file.path else none
    | none => none

/-- The package directory of a descriptor. -/
def packageRootBasePath (fd : Int) : Option Text :=
  if some fd = w.runtime.packageRootFd then some []
  else
    match w.openFile fd with
    | some file => if file.isOpenPackageRootDirectory then file.path else none
    | none => none

/-- The workspace directory of a descriptor. -/
def workspaceBasePath (fd : Int) : Option Text :=
  if fd = workspaceFd then some []
  else
    match w.openFile fd with
    | some file => if file.isOpenWorkspaceDirectory then file.path else none
    | none => none

def mutableWorkspaceBasePath (fd : Int) : Option Text :=
  if w.writable then w.workspaceBasePath fd else none

def isWorkspaceFd (fd : Int) : Bool :=
  fd = workspaceFd || (w.openFile fd).any OpenFile.isOpenWorkspaceDirectory

/-- Through the package root, a path into `/workspace` or one relative to a working directory
there names a workspace entry. -/
def workspaceCwdBasePathForPathRequest (fd : Int) (path : Text) : Option Text :=
  if w.packageRootBasePath fd ≠ some [] then none
  else if (mountedRelativePath path workspacePreopenPath).isSome then some []
  else if ['/'].isPrefixOf path then none
  else mountedRelativePath w.runtime.cwd workspacePreopenPath

/-- The workspace directory that a request starts from. -/
def workspaceBasePathForPathRequest (fd : Int) (path : Text) : Option Text :=
  match w.workspaceBasePath fd with
  | some base => some base
  | none => w.workspaceCwdBasePathForPathRequest fd path

def mutableWorkspaceBasePathForPathRequest (fd : Int) (path : Text) : Option Text :=
  if w.writable then w.workspaceBasePathForPathRequest fd path else none

/-- The base of a descriptor of a directory, provided it holds a right. -/
def basePathForRight (fd : Int) (isDirectory : OpenFile → Bool) (right : Rights) :
    Except Errno Text :=
  match w.openFile fd with
  | some file =>
      if isDirectory file then
        match file.path with
        | none => .error .notcapable
        | some path => if hasRight file.rights right then .ok path else .error .notcapable
      else .error (w.knownFd fd .notcapable)
  | none => .error (w.knownFd fd .notcapable)

/-- The scratch directory of a descriptor with a right. -/
def scratchBasePathForRight (fd : Int) (right : Rights) : Except Errno Text :=
  if fd = tmpFd then .ok []
  else w.basePathForRight fd OpenFile.isOpenScratchDirectory right

/-- The writable workspace directory of a descriptor with a right. -/
def workspaceBasePathForRight (fd : Int) (right : Rights) : Except Errno Text :=
  if fd = workspaceFd then if w.writable then .ok [] else .error .notcapable
  else w.basePathForRight fd OpenFile.isOpenWorkspaceDirectory right

/-- The same for a request; `none` where the workspace is not writable. -/
def workspaceBasePathForRightOrPathRequest (fd : Int) (path : Text) (right : Rights) :
    Option (Except Errno Text) :=
  if w.writable = false then none
  else
    match w.workspaceBasePathForRight fd right with
    | .ok base => some (.ok base)
    | .error errno =>
        if w.isWorkspaceFd fd then some (.error errno)
        else (w.workspaceCwdBasePathForPathRequest fd path).map .ok

/-! ### Opening -/

/-- The result of `path_open`: the number of the new descriptor. -/
abbrev OpenResult := World × Except Errno Int

/-- Open a descriptor at `nextFileFd`. -/
def openDescriptor (file : OpenFile) : OpenResult :=
  (w.pushOpenFile file, .ok w.runtime.nextFileFd)

/-- Opens a descriptor of a directory. -/
def openDirectoryDescriptor (path : Text) (mount : Option MountName) (rights inheriting : Rights)
    (fdflags : Flags) : OpenResult :=
  (w.allocOffset 0).openDescriptor
    ⟨.directory inheriting none w.host.offsets.next, mount, some path, rights, fdflags⟩

/-- Opens a descriptor of a file, at its end for appends. -/
def openFileDescriptor (path : Text) (mount : Option MountName) (record : ℕ) (writable : Bool)
    (rights : Rights) (fdflags : Flags) : OpenResult :=
  let offset :=
    if hasFlag fdflags fdflagsAppend then (w.host.records.get record).bytes.length else 0
  (w.allocOffset offset).openDescriptor
    ⟨.file record writable w.host.offsets.next, mount, some path, rights, fdflags⟩

/-- The checks of the `open…Directory` helpers. -/
def checkOpenDirectory (m : Mount ℕ) (rootExists : Bool) (path : Text) : Except Errno Unit :=
  if m.files.has path = true then .error .notdir
  else if (rootExists = true ∧ path = []) ∨ m.dirs.has path = true ∨
      m.pathHasChildren path = true then .ok ()
  else .error .noent

/-- Opens a directory of the package. -/
def openPackageRootDirectory (path : Text) (requestedRights rightsInheriting : Rights)
    (fdflags : Flags) : OpenResult :=
  if fdflags ≠ 0 then (w, .error .inval)
  else if allowsRights requestedRights workspaceRights = false ∨
      allowsRights rightsInheriting regularFileRights = false then (w, .error .notcapable)
  else
    match checkOpenDirectory w.host.packageRoot.mount false path with
    | .error errno => (w, .error errno)
    | .ok () =>
        w.openDirectoryDescriptor path (some .packageRoot) requestedRights rightsInheriting fdflags

/-- Opens a scratch directory. -/
def openScratchDirectory (path : Text) (requestedRights rightsInheriting : Rights)
    (fdflags : Flags) : OpenResult :=
  if fdflags ≠ 0 then (w, .error .inval)
  else if allowsRights requestedRights tmpRights = false ∨
      allowsRights rightsInheriting scratchFileRights = false then (w, .error .notcapable)
  else
    match checkOpenDirectory w.runtime.scratch false path with
    | .error errno => (w, .error errno)
    | .ok () => w.openDirectoryDescriptor path none requestedRights rightsInheriting fdflags

/-- Opens a directory of the writable workspace. -/
def openWorkspaceDirectory (path : Text) (requestedRights rightsInheriting : Rights)
    (fdflags : Flags) : OpenResult :=
  if fdflags ≠ 0 then (w, .error .inval)
  else if allowsRights requestedRights writableWorkspaceRights = false ∨
      allowsRights rightsInheriting scratchFileRights = false then (w, .error .notcapable)
  else
    match checkOpenDirectory w.workspaceMount true path with
    | .error errno => (w, .error errno)
    | .ok () =>
        w.openDirectoryDescriptor path (some .workspace) requestedRights rightsInheriting fdflags

/-- Opens a directory of the read-only workspace. -/
def openReadOnlyWorkspaceDirectory (path : Text) (requestedRights rightsInheriting : Rights)
    (fdflags : Flags) : OpenResult :=
  if fdflags ≠ 0 then (w, .error .inval)
  else
    match checkOpenDirectory w.workspaceMount true path with
    | .error errno => (w, .error errno)
    | .ok () =>
        w.openDirectoryDescriptor path (some .workspace)
          (grantRights requestedRights workspaceRights)
          (rightsInheriting &&& regularFileRights) fdflags

/-- A new, empty file under a key. -/
def createFile (mount : VirtualMount) (path : Text) : World :=
  ((w.allocRecord ⟨[], some path, none, false⟩).modifyFiles mount
    fun files => files.set path w.host.records.next).markDirty mount

/-- Truncating a workspace file makes it the guest's own. -/
def truncateFile (mount : VirtualMount) (record : ℕ) : World :=
  match mount with
  | .workspace =>
      (w.modifyRecord record fun r => { r with bytes := [], fallback := false }).markWorkspaceDirty
  | .scratch => w.modifyRecord record fun r => { r with bytes := [] }

/-- The `mount` field of the descriptors a mount hands out for its files. -/
def fileMountName : VirtualMount → Option MountName
  | .workspace => some .workspace
  | .scratch => none

/-- The part of `openScratchFile` and `openWorkspaceFile` behind the path resolution. -/
def openMountedFile (mount : VirtualMount) (path : Text) (oflags : Flags) (rightsBase : Rights)
    (fdflags : Flags) : OpenResult :=
  let requestedRights := grantRights rightsBase scratchFileRights
  let wantsWrite := hasRight requestedRights (rightFdWrite ||| rightFdAllocate)
  let wantsCreate := hasFlag oflags oflagsCreat
  let wantsTruncate := hasFlag oflags oflagsTrunc
  if (wantsCreate || wantsTruncate) = true ∧ wantsWrite = false then (w, .error .notcapable)
  else
    match (w.mountOf mount).checkOpenFile path with
    | .error errno => (w, .error errno)
    | .ok () =>
        match (w.mountOf mount).files.get path with
        | none =>
            if wantsCreate = false then (w, .error .noent)
            else
              (w.createFile mount path).openFileDescriptor path (fileMountName mount)
                w.host.records.next true requestedRights fdflags
        | some record =>
            if wantsCreate = true ∧ hasFlag oflags oflagsExcl = true then (w, .error .exist)
            else
              (if wantsTruncate then w.truncateFile mount record else w).openFileDescriptor path
                (fileMountName mount) record true requestedRights fdflags

/-- Opens a scratch file, and may create it. -/
def openScratchFile (basePath path : Text) (oflags : Flags) (rightsBase rightsInheriting : Rights)
    (fdflags : Flags) : OpenResult :=
  if hasFlag fdflags (~~~fdflagsAppend) = true then (w, .error .inval)
  else
    match resolveMountedPath basePath path tmpPreopenPath false false with
    | .error errno => (w, .error errno)
    | .ok key =>
        if hasFlag oflags oflagsDirectory = true then
          w.openScratchDirectory key (grantRights rightsBase tmpRights)
            (rightsInheriting &&& scratchFileRights) fdflags
        else w.openMountedFile .scratch key oflags rightsBase fdflags

/-- Opens a workspace file, and may create it. -/
def openWorkspaceFile (basePath path : Text) (oflags : Flags)
    (rightsBase rightsInheriting : Rights) (fdflags : Flags) : OpenResult :=
  if hasFlag fdflags (~~~fdflagsAppend) = true then (w, .error .inval)
  else
    match resolveMountedPath basePath path workspacePreopenPath w.writable false with
    | .error errno => (w, .error errno)
    | .ok key =>
        if hasFlag oflags oflagsDirectory = true then
          w.openWorkspaceDirectory key (grantRights rightsBase writableWorkspaceRights)
            (rightsInheriting &&& scratchFileRights) fdflags
        else w.openMountedFile .workspace key oflags rightsBase fdflags

def mutatingOflags : Flags := oflagsCreat ||| oflagsExcl ||| oflagsTrunc

/-- A directory of another mount, opened through the package root. -/
def openVirtualMount (mount : VirtualMount) (path : Text) (oflags : Flags)
    (rightsBase rightsInheriting : Rights) (fdflags : Flags) : OpenResult :=
  if path ≠ [] ∧ (w.mountOf mount).pathKind path ≠ some .directory then (w, .error .notcapable)
  else if hasFlag oflags mutatingOflags = true then (w, .error .notcapable)
  else
    match mount with
    | .workspace =>
        if w.writable then
          w.openWorkspaceDirectory path (grantRights rightsBase writableWorkspaceRights)
            (rightsInheriting &&& scratchFileRights) fdflags
        else
          w.openReadOnlyWorkspaceDirectory path (grantRights rightsBase workspaceRights)
            (rightsInheriting &&& regularFileRights) fdflags
    | .scratch =>
        w.openScratchDirectory path (grantRights rightsBase tmpRights)
          (rightsInheriting &&& scratchFileRights) fdflags

/-- Opens a path below the package root. -/
def openPackageRootPath (basePath path : Text) (oflags : Flags)
    (rightsBase rightsInheriting : Rights) (fdflags : Flags) : OpenResult :=
  match rootVirtualMountPath basePath path with
  | .error errno => (w, .error errno)
  | .ok (some (mount, key)) =>
    w.openVirtualMount mount key oflags rightsBase rightsInheriting fdflags
  | .ok none =>
      match resolvePackageRootPath basePath path with
      | .error errno => (w, .error errno)
      | .ok key =>
          if hasFlag oflags oflagsDirectory = true then
            w.openPackageRootDirectory key rightsBase rightsInheriting fdflags
          else if hasFlag oflags mutatingOflags = true ∨ hasFlag fdflags fdflagsAppend = true ∨
              requestsWriteRights rightsBase = true ∨
              requestsWriteRights rightsInheriting = true then (w, .error .notcapable)
          else if allowsRights rightsBase regularFileRights = false then (w, .error .notcapable)
          else if w.host.packageRoot.mount.dirs.has key = true ∨
              w.host.packageRoot.mount.pathHasChildren key = true then (w, .error .isdir)
          else
            match w.host.packageRoot.mount.files.get key with
            | none => (w, .error .noent)
            | some record =>
                w.openFileDescriptor key (some .packageRoot) record false
                  (if rightsBase = 0 then regularFileRights else rightsBase) 0

/-- `path_open` below a read-only workspace directory. -/
def openReadOnlyWorkspacePath (basePath path : Text) (oflags : Flags)
    (rightsBase rightsInheriting : Rights) (fdflags : Flags) : OpenResult :=
  match resolveScratchPath basePath path true with
  | .error errno => (w, .error errno)
  | .ok key =>
      if hasFlag oflags oflagsDirectory = true then
        if hasFlag oflags mutatingOflags = true ∨ hasFlag fdflags fdflagsAppend = true then
          (w, .error .notcapable)
        else w.openReadOnlyWorkspaceDirectory key rightsBase rightsInheriting fdflags
      else if hasFlag oflags mutatingOflags = true ∨ hasFlag fdflags fdflagsAppend = true ∨
          requestsWriteRights rightsBase = true ∨
          requestsWriteRights rightsInheriting = true then (w, .error .notcapable)
      else if key = [] then (w, .error .notcapable)
      else
        match w.workspaceMount.files.get key with
        | none => (w, .error .noent)
        | some record =>
            w.openFileDescriptor key none record false regularFileRights 0

/-- The request wants to write. -/
def pathOpenRequiresWorkspace (oflags : Flags) (rightsBase rightsInheriting : Rights)
    (fdflags : Flags) : Bool :=
  hasFlag oflags mutatingOflags || hasFlag fdflags fdflagsAppend ||
    requestsWriteRights rightsBase || requestsWriteRights rightsInheriting

/-- `path_open` behind the lookup in a workspace working directory. -/
def pathOpenElsewhere (fd : Int) (path : Text) (oflags : Flags)
    (rightsBase rightsInheriting : Rights) (fdflags : Flags) : OpenResult :=
  match w.scratchBasePath fd with
  | some base => w.openScratchFile base path oflags rightsBase rightsInheriting fdflags
  | none =>
      match w.packageRootBasePath fd with
      | some base => w.openPackageRootPath base path oflags rightsBase rightsInheriting fdflags
      | none =>
          match w.workspaceBasePath fd with
          | some base =>
              w.openReadOnlyWorkspacePath base path oflags rightsBase rightsInheriting fdflags
          | none => (w, .error (w.knownFd fd .notcapable))

/-- The import `path_open`. -/
def pathOpen (fd : Int) (dirflags : Flags) (path : Text) (oflags : Flags)
    (rightsBase rightsInheriting : Rights) (fdflags : Flags) : OpenResult :=
  if hasFlag dirflags (~~~lookupSymlinkFollow) = true then (w, .error .inval)
  else
    match w.mutableWorkspaceBasePath fd with
    | some base => w.openWorkspaceFile base path oflags rightsBase rightsInheriting fdflags
    | none =>
        match (if w.writable then w.workspaceCwdBasePathForPathRequest fd path else none) with
        | none => w.pathOpenElsewhere fd path oflags rightsBase rightsInheriting fdflags
        | some base =>
            let opened := w.openWorkspaceFile base path oflags rightsBase rightsInheriting fdflags
            if opened.2 = .error .noent ∧
                pathOpenRequiresWorkspace oflags rightsBase rightsInheriting fdflags = false then
              w.pathOpenElsewhere fd path oflags rightsBase rightsInheriting fdflags
            else opened

/-- The import `path_open2`. -/
def pathOpen2 (fd : Int) (dirflags : Flags) (path : Text) (oflags : Flags)
    (rightsBase rightsInheriting : Rights) (fdflags fdFlagsExt : Flags) : OpenResult :=
  if hasFlag fdFlagsExt (~~~fdflagsExtMask) = true then (w, .error .inval)
  else
    match w.pathOpen fd dirflags path oflags rightsBase rightsInheriting fdflags with
    | (w', .ok openedFd) =>
        -- the number is read back from the memory
        (if fdFlagsExt = 0 then w'
         else w'.setFdFlagsExt (w'.runtime.fdFlagsExt.set (toUint32 openedFd) fdFlagsExt),
          .ok openedFd)
    | (w', .error errno) => (w', .error errno)

/-! ### Creating and removing -/

/-- The result of a path call without a value. -/
abbrev PathResult := World × Except Errno Unit

/-- Creates a directory in a mount. -/
def createDirectoryIn (mount : VirtualMount) (path : Text) : PathResult :=
  match (w.mountOf mount).checkCreateDirectory path with
  | .error errno => (w, .error errno)
  | .ok () => ((w.modifyDirs mount fun dirs => dirs.set path ()).markDirty mount, .ok ())

/-- Detach the descriptors of a kind that name a path. -/
def detach (names : OpenFile → Bool) (path : Text) : World :=
  w.mapOpenFiles fun file =>
    if names file = true ∧ file.path = some path then { file with path := none } else file

def detachOpenScratchDirectory (path : Text) : World :=
  w.detach OpenFile.isOpenScratchDirectory path

def detachOpenWorkspaceDirectory (path : Text) : World :=
  w.detach OpenFile.isOpenWorkspaceDirectory path

def detachOpenWorkspaceFile (path : Text) : World :=
  w.detach (fun file => file.mount = some .workspace && !file.isOpenDirectory) path

/-- Removes a file of a mount. -/
def unlinkFileIn (mount : VirtualMount) (path : Text) : PathResult :=
  match (w.mountOf mount).checkUnlinkFile path with
  | .error errno => (w, .error errno)
  | .ok () =>
      match mount with
      | .workspace =>
          (((w.detachOpenWorkspaceFile path).modifyFiles .workspace
            fun files => files.delete path).markWorkspaceDirty, .ok ())
      | .scratch => (w.modifyFiles .scratch fun files => files.delete path, .ok ())

/-- Removes a directory of a mount. -/
def removeDirectoryIn (mount : VirtualMount) (base path : Text) : PathResult :=
  match (w.mountOf mount).checkRemoveDirectory base path with
  | .error errno => (w, .error errno)
  | .ok () =>
      match mount with
      | .workspace =>
          (((w.detachOpenWorkspaceDirectory path).modifyDirs .workspace
            fun dirs => dirs.delete path).markWorkspaceDirty, .ok ())
      | .scratch => (w.modifyDirs .scratch fun dirs => dirs.delete path, .ok ())

/-- The mount and the base directory of a call that creates or removes an entry. -/
def mutableBase (fd : Int) (path : Text) : Except Errno (VirtualMount × Text) :=
  match w.mutableWorkspaceBasePathForPathRequest fd path with
  | some base => .ok (.workspace, base)
  | none =>
      match w.scratchBasePath fd with
      | some base => .ok (.scratch, base)
      | none => .error (w.knownFd fd .notcapable)

/-- The key a path names below a base directory of a mount. -/
def resolveIn (mount : VirtualMount) (base path : Text) : Except Errno Text :=
  match mount with
  | .workspace => resolveMountedPath base path workspacePreopenPath w.writable false
  | .scratch => resolveMountedPath base path tmpPreopenPath false false

/-- Find the mount, the base and the key of a call, and go on with them. -/
def withMutablePath (fd : Int) (path : Text) (k : VirtualMount → Text → Text → PathResult) :
    PathResult :=
  match w.mutableBase fd path with
  | .error errno => (w, .error errno)
  | .ok (mount, base) =>
      match w.resolveIn mount base path with
      | .error errno => (w, .error errno)
      | .ok key => k mount base key

def pathCreateDirectory (fd : Int) (path : Text) : PathResult :=
  w.withMutablePath fd path fun mount _ key => w.createDirectoryIn mount key

def pathUnlinkFile (fd : Int) (path : Text) : PathResult :=
  w.withMutablePath fd path fun mount _ key => w.unlinkFileIn mount key

def pathRemoveDirectory (fd : Int) (path : Text) : PathResult :=
  w.withMutablePath fd path fun mount base key => w.removeDirectoryIn mount base key

/-! ### Renaming -/

/-- What a file rename does to a descriptor: those of the moved record follow it, those of the
replaced record lose their path. -/
def followRecord (record : ℕ) (replaced : Option ℕ) (target : Text) (file : OpenFile) : OpenFile :=
  if file.isOpenDirectory then file
  else if file.record? = some record then { file with path := some target }
  else if file.record? = replaced then { file with path := none }
  else file

/-- What a directory rename does to a descriptor: a path at or below the source moves. -/
def followPath (source target : Text) (file : OpenFile) : OpenFile :=
  match file.path with
  | some path =>
      if SepPath.AtOrBelow '/' source path then
        { file with path := some (SepPath.rebase source target path) }
      else file
  | none => file

/-- The record that a file rename replaces loses its path. -/
def dropReplacedPath (record : ℕ) (replaced : Option ℕ) : World :=
  w.setHost
    { w.host with
      records :=
        match replaced with
        | some old =>
            if old = record then w.host.records
            else w.host.records.modify old fun r => { r with path := none }
        | none => w.host.records }

/-- The records at or below a directory get the paths of their new keys. -/
def repathRecords (source target : Text) (files : OrdMap Text ℕ) : World :=
  w.setHost
    { w.host with
      records := files.entries.foldl (fun records e =>
        if SepPath.AtOrBelow '/' source e.1 then
          records.modify e.2 fun r => { r with path := some (SepPath.rebase source target e.1) }
        else records) w.host.records }

/-- Moves a scratch file. -/
def renameScratchFile (source target : Text) (record : ℕ) : World :=
  let replaced := w.runtime.scratch.files.get target
  ((((w.dropReplacedPath record replaced).modifyFiles .scratch
      fun files => files.delete source).modifyRecord record
        fun r => { r with path := some target }).modifyFiles .scratch
      fun files => files.set target record).mapOpenFiles (followRecord record replaced target)

/-- Workspace files also become the guest's own, and only workspace descriptors follow. -/
def renameWorkspaceFile (source target : Text) (record : ℕ) : World :=
  let replaced := w.workspaceMount.files.get target
  ((((w.dropReplacedPath record replaced).modifyFiles .workspace
      fun files => files.delete source).modifyRecord record
        fun r => { r with fallback := false, path := some target }).modifyFiles .workspace
      fun files => files.set target record).mapOpenFiles fun file =>
        if file.mount = some .workspace then followRecord record replaced target file else file

/-- Every descriptor follows by its path, whatever its mount. -/
def renameScratchDirectory (source target : Text) : World :=
  ((((w.detachOpenScratchDirectory target).repathRecords source target
    w.runtime.scratch.files).replaceMount .scratch
      (w.runtime.scratch.apply (.renameDir source target)))).mapOpenFiles
    (followPath source target)

/-- Only workspace descriptors follow. -/
def renameWorkspaceDirectory (source target : Text) : World :=
  (((((w.detachOpenWorkspaceDirectory target).modifyDirs .workspace
      fun dirs => dirs.delete target).repathRecords source target
    w.workspaceMount.files).replaceMount .workspace
      (w.workspaceMount.apply (.renameDir source target)))).mapOpenFiles fun file =>
    if file.mount = some .workspace then followPath source target file else file

/-- Moves a file of a mount. -/
def renameFileIn (mount : VirtualMount) (source target : Text) (record : ℕ) : World :=
  match mount with
  | .workspace => w.renameWorkspaceFile source target record
  | .scratch => w.renameScratchFile source target record

/-- Moves a directory of a mount. -/
def renameDirectoryIn (mount : VirtualMount) (source target : Text) : World :=
  match mount with
  | .workspace => w.renameWorkspaceDirectory source target
  | .scratch => w.renameScratchDirectory source target

/-- The part of a rename behind the path resolution. -/
def renameIn (mount : VirtualMount) (source target : Text) : PathResult :=
  if source = target then
    (w, if (w.mountOf mount).pathKind source = none then .error .noent else .ok ())
  else
    match (w.mountOf mount).checkRename source target with
    | .error errno => (w, .error errno)
    | .ok .file =>
        match (w.mountOf mount).files.get source with
        | some record => ((w.renameFileIn mount source target record).markDirty mount, .ok ())
        | none => (w, .error .noent)
    | .ok .directory => ((w.renameDirectoryIn mount source target).markDirty mount, .ok ())

/-- The keys of a rename in the workspace. `none`: the rename is not about the workspace. -/
def workspaceRenameKeys (oldFd : Int) (oldPath : Text) (newFd : Int) (newPath : Text) :
    Option (Except Errno (Text × Text)) :=
  if w.writable = false then none
  else
    match w.workspaceBasePathForRightOrPathRequest oldFd oldPath rightPathRenameSource,
      w.workspaceBasePathForRightOrPathRequest newFd newPath rightPathRenameTarget with
    | none, none => none
    | some (.error errno), _ => some (.error errno)
    | _, some (.error errno) => some (.error errno)
    | some (.ok sourceBase), some (.ok targetBase) =>
        match w.resolveIn .workspace sourceBase oldPath with
        | .error errno => some (.error errno)
        | .ok source =>
            match w.resolveIn .workspace targetBase newPath with
            | .error errno => some (.error errno)
            | .ok target =>
                if source = [] ∨ target = [] then some (.error .notcapable)
                else some (.ok (source, target))
    | _, _ =>
        some (.error
          (if (w.fdStat oldFd).isSome ∧ (w.fdStat newFd).isSome then .notcapable else .badf))

/-- The keys of a rename in `/tmp`. -/
def scratchRenameKeys (oldFd : Int) (oldPath : Text) (newFd : Int) (newPath : Text) :
    Except Errno (Text × Text) :=
  match w.scratchBasePathForRight oldFd rightPathRenameSource with
  | .error errno => .error errno
  | .ok sourceBase =>
      match w.scratchBasePathForRight newFd rightPathRenameTarget with
      | .error errno => .error errno
      | .ok targetBase =>
          match w.resolveIn .scratch sourceBase oldPath with
          | .error errno => .error errno
          | .ok source =>
              match w.resolveIn .scratch targetBase newPath with
              | .error errno => .error errno
              | .ok target => .ok (source, target)

/-- The mount and the keys of a rename. -/
def renameKeys (oldFd : Int) (oldPath : Text) (newFd : Int) (newPath : Text) :
    Except Errno (VirtualMount × Text × Text) :=
  match w.workspaceRenameKeys oldFd oldPath newFd newPath with
  | some (.ok keys) => .ok (.workspace, keys)
  | some (.error errno) => .error errno
  | none =>
      match w.scratchRenameKeys oldFd oldPath newFd newPath with
      | .ok keys => .ok (.scratch, keys)
      | .error errno => .error errno

/-- The import `path_rename`. -/
def pathRename (oldFd : Int) (oldPath : Text) (newFd : Int) (newPath : Text) : PathResult :=
  match w.renameKeys oldFd oldPath newFd newPath with
  | .ok (mount, source, target) => w.renameIn mount source target
  | .error errno => (w, .error errno)

/-! ### Looking up -/

def recordSize (record : ℕ) : ℕ := (w.host.records.get record).bytes.length

/-- The status of an entry of a mount; the root of a mount always exists. -/
def mountedStat (m : Mount ℕ) (path : Text) : Except Errno PathStat :=
  if path = [] then .ok ⟨.directory, 0⟩ else m.statPath w.recordSize path

/-- What a path below the package root is. -/
def packageRootPathStat (fd : Int) (path : Text) : Option (Except Errno PathStat) :=
  match w.packageRootBasePath fd with
  | none => none
  | some base =>
      if path = [] then some (.error .noent)
      else
        match rootVirtualMountPath base path with
        | .error errno => some (.error errno)
        | .ok (some (mount, key)) => some (w.mountedStat (w.mountOf mount) key)
        | .ok none =>
            match resolvePackageRootPath base path with
            | .error errno => some (.error errno)
            | .ok key => some (w.mountedStat w.host.packageRoot.mount key)

/-- What a path below the workspace is. -/
def workspacePathStat (fd : Int) (path : Text) : Option (Except Errno PathStat) :=
  match w.workspaceBasePathForPathRequest fd path with
  | none => none
  | some base =>
      if path = [] then some (.error .noent)
      else
        match resolveMountedPath base path workspacePreopenPath w.writable true with
        | .error errno => some (.error errno)
        | .ok key =>
            match w.mountedStat w.workspaceMount key with
            | .error .noent =>
                if (w.workspaceBasePath fd).isNone then none else some (.error .noent)
            | stat => some stat

/-- What a scratch path is. -/
def scratchPathStat (fd : Int) (path : Text) : Option (Except Errno PathStat) :=
  match w.scratchBasePath fd with
  | none => none
  | some base =>
      match resolveMountedPath base path tmpPreopenPath false true with
      | .error errno => some (.error errno)
      | .ok key => some (w.runtime.scratch.statPath w.recordSize key)

/-- The import `path_filestat_get`. -/
def pathFilestatGet (fd : Int) (flags : Flags) (path : Text) : Except Errno PathStat :=
  if hasFlag flags (~~~lookupSymlinkFollow) = true then .error .inval
  else
    match w.packageRootPathStat fd path with
    | some stat => stat
    | none =>
        match w.workspacePathStat fd path with
        | some stat => stat
        | none =>
            match w.scratchPathStat fd path with
            | some stat => stat
            | none => .error (w.knownFd fd .access)

/-- The listing behind a descriptor of a directory. -/
def directoryForFd (fd : Int) : Option (List DirEntry) :=
  match w.packageRootBasePath fd with
  | some base => some (w.host.packageRoot.mount.directoryEntries base)
  | none =>
      match w.workspaceBasePath fd with
      | some base => some (w.workspaceMount.directoryEntries base)
      | none =>
          match w.scratchBasePath fd with
          | some base => some (w.runtime.scratch.directoryEntries base)
          | none => none

/-- A directory entry as it is written. -/
def direntBytes (entry : DirEntry) (nextCookie : ℕ) : Bytes :=
  littleEndian 8 nextCookie ++ littleEndian 8 nextCookie ++
    littleEndian 4 (encodeText entry.name).length ++ [UInt8.ofNat entry.filetype.code, 0, 0, 0]

/-- The loop of `fdReaddir`: records are written until one does not fit. -/
def direntOutput (capacity : ℕ) : List DirEntry → ℕ → Bytes → Bytes
  | [], _, output => output
  | entry :: rest, cookie, output =>
      let dirent := direntBytes entry cookie
      let withDirent := output ++ dirent.take (capacity - output.length)
      if withDirent.length < output.length + dirent.length then withDirent
      else
        let name := encodeText entry.name
        let withName := withDirent ++ name.take (capacity - withDirent.length)
        if withName.length < withDirent.length + name.length then withName
        else direntOutput capacity rest (cookie + 1) withName

def readdirStartIndex (cookie : Int) : Option ℕ :=
  if cookie < 0 ∨ maxSafeInteger < cookie then none else some cookie.toNat

/-- The import `fd_readdir`. -/
def fdReaddir (mem : Memory) (fd bufferPtr bufferLength cookie bufferUsedPtr : Int) :
    Memory × Except Failure Unit :=
  match w.directoryForFd fd with
  | none => (mem, .error (.errno (w.knownFd fd .notdir)))
  | some entries =>
      match readdirStartIndex cookie with
      | none => (mem, .error (.errno .inval))
      | some start =>
          -- `subarray` clamps both ends and counts a negative start from the end.
          let index := fun i : Int =>
            if i < 0 then (mem.byteLength + i).toNat else min i.toNat mem.byteLength
          let first := index bufferPtr
          let capacity := index (bufferPtr + toUint32 bufferLength) - first
          let output := direntOutput capacity (entries.drop start) (start + 1) []
          (mem.store first output).finishU32 bufferUsedPtr output.length (.ok ())

/-- The kind of an absolute path, for `chdir`. -/
def cwdPathKind (path : Text) : Option PathKind :=
  if path = packageRootPreopenPath then some .directory
  else
    match mountedRelativePath path workspacePreopenPath with
    | some key => if key = [] then some .directory else w.workspaceMount.pathKind key
    | none =>
        match mountedRelativePath path tmpPreopenPath with
        | some key => if key = [] then some .directory else w.runtime.scratch.pathKind key
        | none =>
            let key := if ['/'].isPrefixOf path then path.drop 1 else path
            match w.host.packageRoot.mount.statPath w.recordSize key with
            | .error _ => none
            | .ok stat => some (if stat.filetype = .directory then .directory else .file)

/-- The import `chdir`. -/
def chdir (path : Text) : PathResult :=
  match resolveWasiVirtualPath w.runtime.cwd path with
  | .error errno => (w, .error errno)
  | .ok absolute =>
      match w.cwdPathKind absolute with
      | none => (w, .error .noent)
      | some .file => (w, .error .notdir)
      | some .directory => ({ w with runtime := { w.runtime with cwd := absolute } }, .ok ())

end World

end WasmHost

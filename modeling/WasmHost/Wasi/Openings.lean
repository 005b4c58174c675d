import WasmHost.Wasi.Effects

/-!
# What opening a path does

`World.opensOne_pathOpen` is the inversion of `path_open` in one step: it fails and changes nothing,
or it makes one descriptor of a file or a directory, after finding, creating or truncating what is
behind it.
-/

namespace WasmHost

namespace World

/-- What is done to the files before a descriptor is made. -/
inductive Prepares (w : World) : World → Prop
  | found : Prepares w w
  | created (mount : VirtualMount) (path : Text) : Prepares w (w.createFile mount path)
  | truncated (mount : VirtualMount) (record : ℕ) : Prepares w (w.truncateFile mount record)

/-- The table is as before. -/
theorem Prepares.openFiles {w w₁ : World} (h : Prepares w w₁) :
    w₁.runtime.openFiles = w.runtime.openFiles := by
  cases h with
  | found => rfl
  | created mount | truncated mount => cases mount <;> rfl

/-- Opening fails and changes nothing, or makes one descriptor that is no stream. -/
def OpensOne (w : World) (result : OpenResult) : Prop :=
  (∃ errno, result = (w, .error errno)) ∨
    ∃ w₁ offset file, Prepares w w₁ ∧ file.isOpenPipe = false ∧ file.isOpenStdio = false ∧
      result = (w₁.allocOffset offset).openDescriptor file

section

variable (w : World)

theorem opensOne_error (errno : Errno) : OpensOne w (w, .error errno) := .inl ⟨errno, rfl⟩

theorem opensOne_openDirectory (mount : Option MountName) (path : Text) (rights inheriting : Rights)
    (fdflags : Flags) :
    OpensOne w (w.openDirectoryDescriptor path mount rights inheriting fdflags) :=
  .inr ⟨w, 0, _, .found, rfl, rfl, rfl⟩

theorem opensOne_openFile {w w₁ : World} (h : Prepares w w₁) (path : Text)
    (mount : Option MountName) (record : ℕ) (writable : Bool) (rights : Rights) (fdflags : Flags) :
    OpensOne w (w₁.openFileDescriptor path mount record writable rights fdflags) :=
  .inr ⟨w₁, _, _, h, rfl, rfl, rfl⟩

variable (path : Text)

variable (oflags : Flags) (rightsBase rightsInheriting : Rights) (fdflags : Flags)

theorem opensOne_openMountedFile (mount : VirtualMount) :
    OpensOne w (w.openMountedFile mount path oflags rightsBase fdflags) := by
  unfold openMountedFile
  dsimp only
  split
  · exact w.opensOne_error _
  split
  · exact w.opensOne_error _
  split
  · split
    · exact w.opensOne_error _
    · exact opensOne_openFile (.created mount path) ..
  next record _ =>
    split
    · exact w.opensOne_error _
    split
    · exact opensOne_openFile (.truncated mount record) ..
    · exact opensOne_openFile .found ..

theorem opensOne_openVirtualMount (mount : VirtualMount) :
    OpensOne w (w.openVirtualMount mount path oflags rightsBase rightsInheriting fdflags) := by
  unfold openVirtualMount openWorkspaceDirectory openReadOnlyWorkspaceDirectory openScratchDirectory
  repeat' split
  all_goals first
    | exact w.opensOne_error _
    | exact w.opensOne_openDirectory ..

theorem opensOne_pathOpenElsewhere (fd : Int) :
    OpensOne w (w.pathOpenElsewhere fd path oflags rightsBase rightsInheriting fdflags) := by
  unfold pathOpenElsewhere openScratchFile openScratchDirectory openPackageRootPath
    openPackageRootDirectory openReadOnlyWorkspacePath openReadOnlyWorkspaceDirectory
  repeat' split
  all_goals first
    | exact w.opensOne_error _
    | exact w.opensOne_openDirectory ..
    | exact w.opensOne_openMountedFile ..
    | exact w.opensOne_openVirtualMount ..
    | exact opensOne_openFile .found ..

/-- The second attempt of a call starts from the state before the first. -/
theorem opensOne_pathOpen (fd : Int) (dirflags : Flags) :
    OpensOne w (w.pathOpen fd dirflags path oflags rightsBase rightsInheriting fdflags) := by
  unfold pathOpen openWorkspaceFile openWorkspaceDirectory
  dsimp only
  repeat' split
  all_goals first
    | exact w.opensOne_error _
    | exact w.opensOne_openDirectory ..
    | exact w.opensOne_openMountedFile ..
    | exact w.opensOne_pathOpenElsewhere ..

end

end World

end WasmHost
